import BlockComputer.Proofs.Emission.Growth
import BlockComputer.Proofs.Listing.Range
import BlockComputer.Proofs.Machine.Agreement
import BlockComputer.Proofs.Machine.Arithmetic
import BlockComputer.Proofs.Machine.Control

/-!
What the relocations of a machine reserve.

Each dispatch chain makes one relocation, and the placeholders in it are as many as the longest chain that
it can run has units, whatever the cards emit. So no chain that is selected is cut off, and a window that
is too short is reported by no build unless a card reports it.
-/

namespace BlockComputer

def IsLongest (n : Nat) (chains : List Chain) : Prop :=
  (∃ chain ∈ chains, chain.length = n) ∧ ∀ chain ∈ chains, chain.length ≤ n

theorem Window.Covers.isLongest {w : Window} {chains : List Chain} (covers : w.Covers chains) :
    IsLongest w.length chains :=
  ⟨covers.exists_length_eq, fun _ mem => covers.length_le mem⟩

namespace Chain

def Splices (chain : Chain) (splicer : Splicer) (window : Window) : Prop :=
  ∃ before position after, chain.Relocates splicer window before position after

/-- The chain makes one relocation, which reserves this many units. -/
structure Reserves (chain : Chain) (splicer : Splicer) (n : Nat) : Prop where
  splices : ∃ window, window.length = n ∧ chain.Splices splicer window
  placeholders : chain.commands.count .placeholder = n

variable {chain : Chain} {splicer : Splicer} {window : Window}

theorem Relocates.reserves {before after : List Command} {position : Vector3}
    (h : chain.Relocates splicer window before position after) (plain : .placeholder ∉ before)
    (plain' : .placeholder ∉ after) : chain.Reserves splicer window.length := by
  refine ⟨⟨window, rfl, before, position, after, h⟩, ?_⟩
  obtain ⟨rest, ks, spliced, commands⟩ := h
  rw [commands, List.count_append, List.count_append, List.count_eq_zero_of_not_mem plain,
    List.count_eq_zero_of_not_mem plain', Splicer.count_placeholder_executeAt spliced, Nat.zero_add,
    Nat.add_zero]

theorem not_splices (plain : .placeholder ∉ chain.commands) : ¬ chain.Splices splicer window := by
  rintro ⟨before, position, after, rest, ks, spliced, commands⟩
  have some : .placeholder ∈ rest := by
    refine List.count_pos_iff.1 ?_
    rw [Splicer.count_placeholder_executeAt spliced]
    exact window.length_pos
  refine plain ?_
  rw [commands]
  exact List.mem_append_right _ (List.mem_append_left _ some)

end Chain

namespace ChainGroup

def ReservesLongest (g : ChainGroup) (splicer : Splicer) : Prop :=
  ∃ dispatch rows n, g.chains = dispatch :: rows ∧ dispatch.Reserves splicer n ∧ IsLongest n rows

theorem HasRows.exists_dispatch {label : String} {row : String × EmitM Unit}
    {rows : List (String × EmitM Unit)} {g : ChainGroup} (h : g.HasRows label (row :: rows)) :
    ∃ dispatch, g.chains = dispatch :: g.chains.tail ∧ CapturedFrom row.2 dispatch.commands := by
  have chains := h.chains
  generalize g.chains = cs at chains
  cases chains with
  | cons isRow _ => exact ⟨_, rfl, isRow.commands⟩

end ChainGroup

namespace Machine

theorem Dispatches.reservesLongest {label : String} {dispatch : Window → EmitM Unit}
    {rows : List (String × EmitM Unit)} {g : ChainGroup} (h : Dispatches label dispatch rows g)
    {splicer : Splicer} {select : List Command} {position : Vector3}
    (plain : .placeholder ∉ select)
    (relocates : ∀ window (chain : Chain), CapturedFrom (dispatch window) chain.commands →
      chain.Relocates splicer window select position []) : g.ReservesLongest splicer := by
  obtain ⟨window, areRows, covers⟩ := h
  obtain ⟨first, chains, captured⟩ := areRows.exists_dispatch
  exact ⟨first, g.chains.tail, window.length, chains,
    (relocates window first captured).reserves plain (List.not_mem_nil), covers.isLongest⟩

/-- The relocations of the parts reserve exactly what the chains that they can run need, and the cards'
dispatch makes none exactly if all chains of the cards are empty. -/
structure Parts.ReservesLongest (p : Parts) : Prop where
  arithmetic : p.arithmetic.ReservesLongest p.computer.splicer
  jump : p.jump.ReservesLongest p.computer.splicer
  constant : p.constant.ReservesLongest p.computer.splicer
  card : ∃ dispatch rows, p.card.chains = dispatch :: rows ∧
    ((∀ window, ¬ dispatch.Splices p.computer.splicer window) ↔ ∀ chain ∈ rows, chain.commands = []) ∧
    ((∃ chain ∈ rows, chain.commands ≠ []) → p.card.ReservesLongest p.computer.splicer)
  primary : ∃ n, p.primary.Reserves p.computer.splicer n ∧
    IsLongest n ([p.arithmetic, p.jump, p.constant, p.card].filterMap (·.chains.head?))

theorem Parts.reservesLongest_card {p : Parts} {cards : List (Card Id)} {head cloner fetcher : Entity}
    (standard : p.IsStandard cards head cloner fetcher) :
    ∃ dispatch rows, p.card.chains = dispatch :: rows ∧
      ((∀ window, ¬ dispatch.Splices p.computer.splicer window) ↔
        ∀ chain ∈ rows, chain.commands = []) ∧
      ((∃ chain ∈ rows, chain.commands ≠ []) → p.card.ReservesLongest p.computer.splicer) := by
  have card := standard.card.2
  rw [standard.computer] at card ⊢
  rcases card with dispatches | ⟨areRows, idle⟩
  · have reserves : p.card.ReservesLongest ⟨cloner⟩ :=
      dispatches.reservesLongest (by decide) fun window chain captured => relocates_card captured
    have ⟨dispatch, rows, n, chains, reserved, ⟨chain, mem, length⟩, _⟩ := reserves
    obtain ⟨window, same, spliced⟩ := reserved.splices
    have busy : chain.commands ≠ [] := fun empty => by
      rw [Chain.length, empty] at length
      exact Nat.ne_of_gt window.length_pos (same.trans length.symm)
    exact ⟨dispatch, rows, chains, ⟨fun none => (none window spliced).elim,
      fun empty => (busy (empty chain mem)).elim⟩, fun _ => reserves⟩
  · obtain ⟨dispatch, chains, captured⟩ := areRows.exists_dispatch
    have commands := emits_cardDispatch_none.of_capturedFrom captured
    have plain : .placeholder ∉ dispatch.commands := by
      rw [commands]
      decide
    refine ⟨dispatch, _, chains, ⟨fun _ => idle, fun _ window => Chain.not_splices plain⟩, ?_⟩
    rintro ⟨chain, mem, busy⟩
    exact (busy (idle chain mem)).elim

theorem placeholder_notMem_fetch (head : Entity) : .placeholder ∉ fetch head ++ decode := by
  rw [List.mem_append]
  rintro (fetched | decoded)
  · simp [fetch, Memory.loadCommands, Memory.seekCommands, Variable.addCommand, Piece.storeCommand,
      Memory.readCommand] at fetched
  · revert decoded
    decide

theorem Parts.IsStandard.reservesLongest {p : Parts} {cards : List (Card Id)}
    {head cloner fetcher : Entity} (standard : p.IsStandard cards head cloner fetcher) :
    p.ReservesLongest := by
  have arithmetic := standard.arithmetic
  have jump := standard.jump
  have constant := standard.constant
  obtain ⟨window, primary⟩ := standard.primary
  have captured := primary.commands
  have splicer : p.computer.splicer = ⟨cloner⟩ := congrArg Computer.splicer standard.computer
  rw [standard.computer] at arithmetic jump constant captured
  refine ⟨?_, ?_, ?_, reservesLongest_card standard, window.length, ?_, primary.covers.isLongest⟩
  · rw [splicer]
    exact arithmetic.reservesLongest (by decide) fun _ _ captured => relocates_arithmetic captured
  · rw [splicer]
    exact jump.reservesLongest (by decide) fun _ _ captured => relocates_jump captured
  · rw [splicer]
    exact constant.reservesLongest (by decide) fun _ _ captured => relocates_constant captured
  · rw [splicer]
    exact (relocates_primary captured).reserves (placeholder_notMem_fetch head) (by decide)

end Machine

namespace NeverOverflows

theorem newMarker : NeverOverflows newMarker :=
  fun _ _ _ failed => nomatch failed

theorem addRows {rows : List (String × EmitM Unit)}
    (emitted : ∀ row ∈ rows, ∃ cs ks, Emits row.2 () cs ks) (g : ChainGroup) :
    NeverOverflows (g.addRows rows) := by
  refine FailsWith.addRows (fun row mem label onlyChain s e s' failed => ?_) g
  obtain ⟨cs, ks, emits⟩ := emitted row mem
  rw [emits.perform_captureChain] at failed
  cases failed

theorem covering (label : String) (chains : List Chain) :
    NeverOverflows (liftM (Window.covering label chains) : EmitM Window) := by
  refine FailsWith.lift fun cause failed => ?_
  unfold Window.covering at failed
  split at failed
  · cases failed
  · cases failed
    rintro ⟨_, _, _, same⟩
    cases same

theorem ofGroup (g : ChainGroup) : NeverOverflows (liftM (Window.ofGroup g) : EmitM Window) := by
  rw [Window.ofGroup_eq]
  exact covering _ _

theorem naming {α : Type} {x : EmitM α} {a : α} {vars : List (String × Int32)}
    (h : Declares x a vars) : NeverOverflows x :=
  h.fails.mono fun _ naming => naming.not_isOverflow

theorem declares {α : Type} {x : EmitM α} {a : α} {vars : List (String × Int32)}
    (h : DeclaresInit x a vars) : NeverOverflows x :=
  h.fails.mono fun _ naming => naming.not_isOverflow

theorem spliceFrom (anchor : Entity) (w : Window) : NeverOverflows (Splicer.spliceFrom anchor w) := by
  unfold Splicer.spliceFrom
  refine .bind (.narrow _) fun reach => ?_
  simp only [here_add_absolute, bufferPosition_add_absolute]
  exact .bind (.pure _) fun _ => .bind (.emit _) fun _ => .bind (.pure _) fun _ =>
    .bind (.emit _) fun _ => .bind (.emitAll _) fun _ => .emit _

theorem executeAt (splicer : Splicer) (position : Vector3) (w : Window) :
    NeverOverflows (splicer.executeAt position w) :=
  .bind (.bind (.emit _) fun _ => .bind (.emit _) fun _ => .emit _) fun _ => .spliceFrom _ w

theorem moveTo (e : Entity) (target : Vector3) : NeverOverflows (e.moveTo target) :=
  .bind (.emit _) fun _ => .bind (.emit _) fun _ => .emit _

theorem offset (v : Vector3) (amount : Position) : NeverOverflows (v.offset amount) :=
  have axis (a : Variable) (n : Int32) :
      NeverOverflows (if n = 0 then Pure.pure () else a.operate .add (.literal n)) :=
    .ite (.pure ()) (.operate _ _ (by decide))
  .bind (axis _ _) fun _ => .bind (axis _ _) fun _ => axis _ _

end NeverOverflows

namespace Machine

theorem Memory.neverOverflows_create : NeverOverflows Memory.create :=
  .inInit <| .bind .newMarker fun _ => .bind (.naming (Declares.vector _ _)) fun _ =>
    .bind (.naming (Declares.create _ _)) fun _ => .bind (.naming (Declares.create _ _)) fun _ =>
    .bind (.bind (.emit _) fun _ => .emit _) fun _ => .pure _

theorem Memory.neverOverflows_preload (words : List UInt16) : NeverOverflows (preload words) :=
  .thenIf (.throw fun ⟨_, _, _, same⟩ => nomatch same) fun _ => .inInit (.emitAll _)

theorem Memory.neverOverflows_load (memory : Memory) (index v : Variable) :
    NeverOverflows (memory.load index v) :=
  have seek : NeverOverflows (memory.seek index) :=
    .bind (.assign _ _) fun _ => .bind (.bitslice _ _ _ _) fun _ =>
    .bind (.assign _ _) fun _ => .bind (.bitslice _ _ _ _) fun _ =>
    .bind (.assign _ _) fun _ => .bind (.bitslice _ _ _ _) fun _ =>
    .bind (.offset _ _) fun _ => .moveTo _ _
  .bind seek fun _ => .bind (.emit _) fun _ => .bind (.emit _) fun _ => .bind (.assign _ _) fun _ =>
    .bind (.operate _ _ (by decide)) fun _ => .bind (.operate _ _ (by decide)) fun _ =>
    .bind (.operate _ _ (by decide)) fun _ => .operate _ _ (by decide)

namespace Computer

variable (c : Computer)

theorem neverOverflows_create : NeverOverflows create :=
  .bind Memory.neverOverflows_create fun _ =>
    .bind (.inInit <| .bind .newMarker fun _ => .bind (.emit _) fun _ => .pure _) fun _ =>
    .bind (.inInit <| .bind .newMarker fun _ => .bind (.emit _) fun _ => .pure _) fun _ =>
    .bind (.declares Registers.declares) fun _ => .pure _

theorem neverOverflows_arithmeticDispatch (scores : ArithmeticScores) (w : Window) :
    NeverOverflows (c.arithmeticDispatch scores w) :=
  .bind (.assign _ _) fun _ => .bind (.bitslice _ _ _ _) fun _ =>
    .bind (.assign _ _) fun _ => .bind (.bitslice _ _ _ _) fun _ =>
    .bind (.runIf (.bind (.assign _ _) fun _ => .bind (.bitslice _ _ _ _) fun _ =>
      .operate _ _ (by decide)) _) fun _ =>
    .bind (.orElse (.bind (.assign _ _) fun _ => .bind (.operate _ _ (by decide)) fun _ =>
      .bind (.operate _ _ (by decide)) fun _ => .operate _ _ (by decide)) _) fun _ =>
    .executeAt _ _ _

theorem neverOverflows_jumpDispatch (scores : JumpScores) (w : Window) :
    NeverOverflows (c.jumpDispatch scores w) :=
  have near : NeverOverflows (do
      scores.offset.assign c.registers.opcode
      scores.offset.operate .mod (.literal 128)
      scores.offset.signExtend 7
      scores.target.assign c.registers.instruction
      scores.target.operate .add scores.offset
      scores.position.z.assign c.registers.opcode
      scores.position.z.bitslice 7 3 false
      scores.position.z.operate .add (.literal 1)) :=
    .bind (.assign _ _) fun _ => .bind (.operate _ _ (by decide)) fun _ =>
      .bind (.signExtend _ _) fun _ => .bind (.assign _ _) fun _ =>
      .bind (.operate _ _ (by decide)) fun _ => .bind (.assign _ _) fun _ =>
      .bind (.bitslice _ _ _ _) fun _ => .operate _ _ (by decide)
  have far : NeverOverflows (do
      scores.target.assign c.registers.opcode
      scores.target.operate .mod (.literal 16)
      scores.target.operate .mul (.literal 256)
      scores.target.operate .add c.registers.constant
      scores.position.z.assign c.registers.opcode
      scores.position.z.bitslice 4 3 false
      scores.position.z.operate .add (.literal 1)) :=
    .bind (.assign _ _) fun _ => .bind (.operate _ _ (by decide)) fun _ =>
      .bind (.operate _ _ (by decide)) fun _ => .bind (.operate _ _ (by decide)) fun _ =>
      .bind (.assign _ _) fun _ => .bind (.bitslice _ _ _ _) fun _ => .operate _ _ (by decide)
  .bind (near.runIf _) fun _ => .bind (far.orElse _) fun _ => .executeAt _ _ _

theorem neverOverflows_constantDispatch (scores : ConstantScores) (w : Window) :
    NeverOverflows (c.constantDispatch scores w) :=
  .bind (.assign _ _) fun _ => .bind (.bitslice _ _ _ _) fun _ => .bind (.assign _ _) fun _ =>
    .bind (.bitslice _ _ _ _) fun _ => .bind (.operate _ _ (by decide)) fun _ => .executeAt _ _ _

theorem neverOverflows_cardDispatch (position : Vector3) (w? : Option Window) :
    NeverOverflows (c.cardDispatch position w?) := by
  refine .bind (.assign _ _) fun _ => .bind (.bitslice _ _ _ _) fun _ => ?_
  cases w? with
  | none => exact .pure ()
  | some w =>
    exact .bind (.assign _ _) fun _ => .bind (.bitslice _ _ _ _) fun _ =>
      .bind (.operate _ _ (by decide)) fun _ => .executeAt _ _ _

theorem neverOverflows_cycle (position : Vector3) (w : Window) :
    NeverOverflows (c.cycle position w) :=
  .bind (c.memory.neverOverflows_load _ _) fun _ => .bind (.assign _ _) fun _ =>
    .bind (.bitslice _ _ _ _) fun _ => .bind (.operate _ _ (by decide)) fun _ =>
    .bind (.executeAt _ _ _) fun _ => .bind (.runIf (.operate _ _ (by decide)) _) fun _ =>
    .orElse (.emit _) _

theorem neverOverflows_primaryChain (groups : List ChainGroup) :
    NeverOverflows (c.primaryChain groups) :=
  .bind (.covering _ _) fun w => .bind (.declares (Vector3.declares _ _)) fun position =>
    .captureChain (c.neverOverflows_cycle position w) _ _

end Computer

theorem neverOverflows_dispatches {σ : Type} {create : EmitM σ} {standard : σ}
    {vars : List (String × Int32)} (declares : DeclaresInit create standard vars)
    (rows : σ → List (String × EmitM Unit)) (dispatch : σ → Window → EmitM Unit) {label name : String}
    (emitted : ∀ row ∈ rows standard, ∃ cs ks, Emits row.2 () cs ks)
    (never : ∀ scores window, NeverOverflows (dispatch scores window)) :
    NeverOverflows (do
      let scores ← create
      let group ← ChainGroup.addRows { label, onlyChain := true } (rows scores)
      let window ← (liftM (Window.ofGroup group) : EmitM Window)
      return group.prepend (← captureChain name true (dispatch scores window))) := by
  refine FailsWith.bind_of_ensures (NeverOverflows.declares declares) declares.returns ?_
  rintro scores same
  rw [← same] at emitted
  exact NeverOverflows.bind (.addRows emitted _) fun g => .bind (.ofGroup g) fun window =>
    .bind (.captureChain (never scores window) _ _) fun _ => .pure _

theorem EmitsRows.exists_emits {c : Computer} {rows : List (String × EmitM Unit)}
    {table : List (String × List Stage)} (h : EmitsRows c rows table) :
    ∀ row ∈ rows, ∃ cs ks, Emits row.2 () cs ks := by
  induction h with
  | nil => exact fun _ mem => nomatch mem
  | cons entry _ ih => exact List.forall_mem_cons.2 ⟨⟨_, _, entry.2.emits⟩, ih⟩

section standard

variable {head cloner fetcher : Entity}

theorem neverOverflows_arithmeticGroup :
    NeverOverflows (Computer.standard head cloner fetcher).arithmeticGroup :=
  neverOverflows_dispatches ArithmeticScores.declares
    (fun scores => (Computer.standard head cloner fetcher).binaryRows scores
      ++ (Computer.standard head cloner fetcher).unaryRows scores)
    _ emitsRows_arithmetic.exists_emits (Computer.neverOverflows_arithmeticDispatch _)

theorem neverOverflows_jumpGroup :
    NeverOverflows (Computer.standard head cloner fetcher).jumpGroup :=
  neverOverflows_dispatches JumpScores.declares _ _ emitsRows_jump.exists_emits
    (Computer.neverOverflows_jumpDispatch _)

theorem neverOverflows_constantGroup :
    NeverOverflows (Computer.standard head cloner fetcher).constantGroup :=
  neverOverflows_dispatches ConstantScores.declares _ _ emitsRows_constant.exists_emits
    (Computer.neverOverflows_constantDispatch _)

end standard

theorem Bank.exists_emits (r : Registers) : ∀ row ∈ rows r, ∃ cs ks, Emits row.2 () cs ks := by
  simp only [rows, List.forall_mem_cons]
  exact ⟨⟨_, _, .forM_single (fun v => .assign _ v) _⟩, ⟨_, _, .forM_single (fun v => .assign v _) _⟩,
    ⟨_, _, .forM_single (fun v => .assign _ v) _⟩, ⟨_, _, .forM_single (fun v => .assign v _) _⟩,
    List.forall_mem_nil _⟩

/-- What a build does before it comes to the card behind these. -/
def Computer.untilCard (before : List (Card Id)) (program : List UInt16) : EmitM Computer := do
  let c ← Computer.create
  Memory.preload program
  let _ ← c.arithmeticGroup
  let _ ← c.jumpGroup
  let _ ← c.constantGroup
  let _ ← inInit (Vector3.create "card_position" Layout.cardGroup)
  let _ ← ChainGroup.addRows { label := "card", onlyChain := true } (c.cardRows before)
  return c

/-- The build has come from the session to a card, whose generator has failed with this in a scope of its
own. -/
def BlamesCard (cards : List (Card Id)) (program : List UInt16) (s : Session) (e : Failure) : Prop :=
  ∃ before card after c t t', cards = before ++ card :: after ∧
    perform (Computer.untilCard before program) s = (.ok c, t) ∧
    perform (card.generate c) { t with scopes := [] :: t.scopes } = (.error e, t')

section overflow

variable {cards : List (Card Id)} {program : List UInt16} {s s' : Session} {e : Failure}

theorem exists_card_of_cardGroup (c : Computer) (overflow : e.IsOverflow)
    (failed : perform (c.cardGroup cards) s = (.error e, s')) :
    ∃ before card after position g t u t', cards = before ++ card :: after ∧
      perform (inInit (Vector3.create "card_position" Layout.cardGroup)) s = (.ok position, t) ∧
      perform (ChainGroup.addRows { label := "card", onlyChain := true } (c.cardRows before)) t =
        (.ok g, u) ∧
      perform (card.generate c) { u with scopes := [] :: u.scopes } = (.error e, t') := by
  unfold Computer.cardGroup at failed
  split at failed
  · have many : NeverOverflows (reject (.tooManyCards cards.length cardSlots) : EmitM PUnit) :=
      .throw fun ⟨_, _, _, same⟩ => nomatch same
    obtain ⟨_, _, rejected, -⟩ := many.exists_ok overflow failed
    cases rejected
  obtain ⟨position, t, declared, failed⟩ := (NeverOverflows.declares (Vector3.declares _ _)).exists_ok
    overflow failed
  obtain generated | ⟨g, u, -, failed⟩ := perform_bind_eq_error failed
  · obtain ⟨rowsBefore, row, rowsAfter, g, u, rows, made, ⟨t', inner⟩ | closed⟩ :=
      exists_row_of_perform_addRows_eq_error generated
    · obtain ⟨before, others, rfl, rfl, rest⟩ := List.map_eq_append_iff.1 rows
      obtain ⟨card, after, rfl, rfl, rfl⟩ := List.map_eq_cons_iff.1 rest
      exact ⟨before, card, after, position, g, t, u, t', rfl, declared, made, inner⟩
    · exact (not_isOverflow_noActiveScope (closed ▸ overflow)).elim
  · -- the window is computed for the group, and the dispatch chain makes nothing but relocations with it
    have dispatch (w? : Option Window) : NeverOverflows (do
        return g.prepend (← captureChain "card/dispatch" true (c.cardDispatch position w?))) :=
      .bind (.captureChain (c.neverOverflows_cardDispatch _ _) _ _) fun _ => .pure _
    refine ((?_ : NeverOverflows _) _ _ _ failed overflow).elim
    exact .ite (.bind (FailsWith.map _ (NeverOverflows.ofGroup g)) dispatch) (.bind (.pure none) dispatch)

/-- A build that reports an overflow has come to a card that reports it. -/
theorem blamesCard_of_build (failed : perform (build cards program) s = (.error e, s'))
    (overflow : e.IsOverflow) : BlamesCard cards program s e := by
  rw [Parts.build_eq] at failed
  obtain made | ⟨p, _, -, failed⟩ := perform_bind_eq_error failed
  · obtain ⟨c, _, created, made⟩ := Computer.neverOverflows_create.exists_ok overflow made
    obtain ⟨head, cloner, fetcher, rfl⟩ := Computer.ensures_create _ _ _ created
    obtain ⟨_, _, preloaded, made⟩ := (Memory.neverOverflows_preload _).exists_ok overflow made
    obtain ⟨_, _, arithmetic, made⟩ := neverOverflows_arithmeticGroup.exists_ok overflow made
    obtain ⟨_, _, jump, made⟩ := neverOverflows_jumpGroup.exists_ok overflow made
    obtain ⟨_, _, constant, made⟩ := neverOverflows_constantGroup.exists_ok overflow made
    obtain here | ⟨_, _, -, made⟩ := perform_bind_eq_error made
    · obtain ⟨before, card, after, position, g, t, u, t', rfl, declared, rows, fails⟩ :=
        exists_card_of_cardGroup _ overflow here
      refine ⟨before, card, after, _, u, t', rfl, ?_, fails⟩
      simp only [Computer.untilCard, perform_bind, created, preloaded, arithmetic, jump, constant, declared,
        rows, perform_pure]
    · refine ((?_ : NeverOverflows _) _ _ _ made overflow).elim
      exact .bind (.addRows (Bank.exists_emits _) _) fun _ =>
        .bind (Computer.neverOverflows_primaryChain _ _) fun _ =>
        .bind (fun _ _ _ failed => nomatch failed) fun _ => .pure _
  · have never : NeverOverflows (liftM (Listing.ofGroups p.groups) : EmitM Listing) :=
      .lift fun _ failed => (Listing.isPlacing_of_ofGroups failed).not_isOverflow
    exact (never _ _ _ failed overflow).elim

end overflow

/-- A window is as long as the longest of its chains and no longer. A build lays out the groups of its parts,
and the dispatch chains among them reserve exactly such windows. And a build reports that a chain is too long
for its window only if it has come to a card that reports it. -/
theorem windows_fit :
    (∀ (label : String) (chains : List Chain),
      ((∃ e, Window.covering label chains = .error e) ↔ ∀ chain ∈ chains, chain.commands = []) ∧
        ∀ w, Window.covering label chains = .ok w → w.IsLeast chains) ∧
    ∀ (cards : List (Card Id)) (program : List UInt16),
      (build cards program = Parts.make cards program >>= fun p => liftM (Listing.ofGroups p.groups)) ∧
      (∀ (s s' : Session) (p : Parts), perform (Parts.make cards program) s = (.ok p, s') →
        p.ReservesLongest) ∧
      ∀ (s s' : Session) (e : Failure), perform (build cards program) s = (.error e, s') → e.IsOverflow →
        BlamesCard cards program s e := by
  refine ⟨fun label chains => ⟨Window.covering_fails_iff label chains, fun w covered => ?_⟩,
    fun cards program => ⟨Parts.build_eq cards program, fun s s' p made => ?_,
      fun s s' e => blamesCard_of_build⟩⟩
  · exact (Window.covers_of_covering covered).isLeast
  · obtain ⟨head, cloner, fetcher, standard⟩ := Parts.ensures_make cards program s p s' made
    exact standard.reservesLongest

def longCard : Card Id where
  name := "long"
  generate _ := emitAll (List.replicate 100 (.tellScore ⟨"shown"⟩))

theorem windows_fit_longCard :
    (∃ w, Window.covering "pair" [⟨"a", [.placeholder], true⟩, ⟨"b", [], true⟩] = .ok w ∧
      w.IsLeast [⟨"a", [.placeholder], true⟩, ⟨"b", [], true⟩]) ∧
    ∃ p s', perform (Parts.make [longCard] []) {} = (.ok p, s') ∧ p.ReservesLongest := by
  have succeeds : (perform (Parts.make [longCard] []) {}).1.toBool = true := by decide +kernel
  refine ⟨⟨.single, rfl, (windows_fit.1 "pair" _).2 _ rfl⟩, ?_⟩
  cases made : perform (Parts.make [longCard] []) {} with
  | mk outcome s' =>
    rw [made] at succeeds
    cases outcome with
    | error e => cases succeeds
    | ok p => exact ⟨p, s', rfl, (windows_fit.2 [longCard] []).2.1 {} s' p made⟩

end Machine

end BlockComputer
