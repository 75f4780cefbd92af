import BlockComputer.Proofs.Machine.Arithmetic
import BlockComputer.Proofs.Machine.Control

/-!
One cycle of the machine.

The primary chain fetches a word, runs the dispatch chain of its group, which runs the row that the word
selects, and advances. `next` is what this does to a state; a word that selects a slot without a card runs
an empty row.
-/

namespace BlockComputer

theorem World.holdsRow_nil {w : World} {p : Site} {n : Nat}
    (air : ∀ i < n, w.blocks (p.shift i) = none) : w.HoldsRow p [] n :=
  ⟨Nat.zero_le n, air⟩

namespace Machine

def stagesAt (table : List (String × List Stage)) (i : Nat) : List Stage :=
  (table[i]?.map Prod.snd).getD []

theorem stagesAt_eq_nil {table : List (String × List Stage)} {i : Nat} (none_ : table[i]? = none) :
    stagesAt table i = [] := by
  rw [stagesAt, none_]
  rfl

theorem stagesAt_eq {table : List (String × List Stage)} {i : Nat} {entry : String × List Stage}
    (here : table[i]? = some entry) : stagesAt table i = entry.2 := by
  rw [stagesAt, here]
  rfl

namespace Ground

variable {G : Ground} {s t : State}

/-- The splicer's entity is sent to a row, and the row runs. -/
theorem Leads.executeAt {position : Vector3} {window : Window} (row : List Item) {q : Site}
    (at_ : ∀ {w : World}, G.Shows w s → w.siteOf position = q) (height : 1 ≤ q.y ∧ q.y ≤ 6)
    (holds : (World.ofListing G.listing).HoldsRow q (BlockComputer.units row) window.length)
    (body : G.Leads row s t) :
    G.Leads (Piece.executeAt G.parts.computer.splicer position window).items s t := by
  refine ⟨fun {w} h p => ?_⟩
  have here : (w.locate G.cloner).isSome := h.isSome_locate (by simp [Computer.helpers, cloner])
  have stands := Piece.stands_moveCommands here position p
  rw [at_ h] at stands
  obtain ⟨place, located, rfl⟩ := stands
  have moved := h.of_sameBut ((Piece.sameBut_moveCommands G.cloner position p w).mono
    (List.nil_subset _))
  have still : ∀ c ∈ Piece.moveCommands G.cloner position, c.movesBlocks = false := by
    simp [Piece.moveCommands, Piece.storeCommand, Command.movesBlocks]
  have inRows : place.site.row window.length ⊆ territory.rows := by
    rintro _ ⟨i, -, rfl⟩
    exact height
  obtain ⟨w', ran, shows⟩ := body.runs moved ((p.shift 3).shift 2)
  exact ⟨w', (RunsInPlace.commands still p w).append
    (.splice located (moved.holdsRow holds height) inRows ran .nil), shows⟩

theorem holdsRow_of_hasChain {chain : Chain} {p : Site} {n : Nat}
    (has : G.parts.HasChain G.listing chain p) (only : chain.onlyChain = true)
    (short : chain.length ≤ n) : (World.ofListing G.listing).HoldsRow p chain.commands n := by
  refine ⟨short, fun i _ => ?_⟩
  have kind : kindAt chain.firstKind i = .chain := by simp [kindAt, Chain.firstKind, only]
  rw [has.blocks, Chain.blockAt?, kind]

theorem blocks_of_missing {number row : Nat} (few : number < 4)
    (missing : (G.parts.group number).chains[row]? = none) (i : Nat) :
    (World.ofListing G.listing).blocks (Site.shift ⟨0, number + 1, row⟩ i) = none := by
  refine World.blocks_ofListing_eq_none G.laidOut.placed fun chain p j stands same => ?_
  obtain ⟨g, mem, r, here, rfl⟩ := stands
  obtain ⟨q, inGroups, site⟩ : ∃ q, (q, G.parts.group number) ∈ G.parts.groups ∧
      q.site = ⟨0, number + 1, 0⟩ := by
    obtain rfl | rfl | rfl | rfl : number = 0 ∨ number = 1 ∨ number = 2 ∨ number = 3 := by omega
    · exact ⟨Layout.arithmeticGroup, by simp [Parts.groups, Parts.group], rfl⟩
    · exact ⟨Layout.jumpGroup, by simp [Parts.groups, Parts.group], rfl⟩
    · exact ⟨Layout.constantGroup, by simp [Parts.groups, Parts.group], rfl⟩
    · exact ⟨Layout.cardGroup, by simp [Parts.groups, Parts.group], rfl⟩
  have height : g.1.site.y = q.site.y := by
    have y := congrArg Site.y same
    simp only [Site.shift, Site.south] at y
    rw [site, ← y]
  obtain rfl := List.inj_on_of_nodup_map G.parts.atDifferentHeights_groups mem inGroups height
  have z := congrArg Site.z same
  simp only [Site.shift, Site.south, site] at z
  obtain rfl : row = r := by omega
  rw [missing] at here
  cases here

theorem Lists.leads {number : Nat} {table : List (String × List Stage)} {window : Window}
    (h : G.Lists number table window) {position : Vector3} {i : Nat}
    (at_ : ∀ {w : World}, G.Shows w s → w.siteOf position = ⟨0, number + 1, (i + 1 : Nat)⟩) :
    G.Leads (Piece.executeAt G.parts.computer.splicer position window).items s
      (effects (stagesAt table i) s) := by
  have few := h.few
  have height : 1 ≤ ((number : Int) + 1) ∧ ((number : Int) + 1) ≤ 6 := by omega
  -- behind the last row of the table there is air, and air copied into the window runs nothing
  cases here : table[i]? with
  | none =>
    have missing : (G.parts.group number).chains[i + 1]? = none := by
      rw [← List.getElem?_tail, List.getElem?_eq_none_iff, ← h.chains.length_eq]
      exact List.getElem?_eq_none_iff.1 here
    rw [stagesAt_eq_nil here]
    exact .executeAt [] at_ height
      (World.holdsRow_nil fun j _ => blocks_of_missing few missing j) (.nil s)
  | some entry =>
    obtain ⟨chain, has, isEntry, short⟩ := h.exists_chain here
    have holds := holdsRow_of_hasChain has isEntry.onlyChain_eq short
    rw [isEntry.commands] at holds
    rw [stagesAt_eq here]
    exact .executeAt _ at_ height holds
      (leads_stages (h.safe entry (List.mem_of_getElem? here)) s)

/-- The dispatch chain of a group does this to a state with a running word of the group. -/
structure DispatchesTo (G : Ground) (number : Nat) (result : Nat → State → State) : Prop where
  exists_chain : ∃ chain items, (G.parts.group number).chains[0]? = some chain ∧
    chain.onlyChain = true ∧ chain.commands = BlockComputer.units items ∧ chain.length ≤ 128 ∧
    ∀ s n, s.scores ⟨"opcode"⟩ = Int32.ofNat n → n < 4096 → n / 1024 = number →
      G.Leads items s (result n s)

theorem Lists.dispatchesTo {number : Nat} {table : List (String × List Stage)} {window : Window}
    (h : G.Lists number table window) {chain : Chain} {dispatch : EmitM Unit}
    (select : List Command) (position : Vector3) {selected : Nat → State → State}
    (first : (G.parts.group number).chains[0]? = some chain) (only : chain.onlyChain = true)
    (captured : CapturedFrom dispatch chain.commands)
    (emits : ∀ rest ks, Emits (G.parts.computer.splicer.executeAt position window) () rest ks →
      ∃ ls, Emits dispatch () (select ++ rest) ls)
    (short : FitIn 64 table) (few : select.length ≤ 32) (still : ∀ c ∈ select, c.movesBlocks = false)
    (selects : ∀ {w : World} {s n}, G.Shows w s → s.scores ⟨"opcode"⟩ = Int32.ofNat n → n < 4096 →
      n / 1024 = number → ∀ p, G.Shows (w.runAll p select) (selected n s))
    (at_ : ∀ {w : World} {s n}, G.Shows w (selected n s) → n < 4096 → n / 1024 = number →
      w.siteOf position = ⟨0, number + 1, rowOf n⟩) :
    G.DispatchesTo number fun n s => effects (stagesAt table (rowOf n - 1)) (selected n s) := by
  have bound : window.length ≤ 64 := h.length_le short
  obtain ⟨ls, emitted⟩ := emits _ _ (Emits.executeAt G.parts.computer.splicer position
    (bound.trans (by decide)))
  have commands := emitted.of_capturedFrom captured
  refine ⟨chain, select.map .unit ++ (Piece.executeAt G.parts.computer.splicer position window).items,
    first, only, ?_, ?_, fun s n opcode small group => ?_⟩
  · rw [commands, units_append, units_map_unit]
  · rw [Chain.length, commands]
    simp [Piece.items, Item.commands]
    omega
  · refine (Leads.commands still fun shows p => selects shows opcode small group p).append ?_
    refine h.leads fun shows => ?_
    have positive : 1 ≤ rowOf n := by
      unfold rowOf
      split <;> (try split) <;> omega
    rw [at_ shows small group, Nat.sub_add_cancel positive]

end Ground

def selectArithmetic (n : Nat) (s : State) : State :=
  ((s.setScore ⟨"arith_src"⟩ (Int32.ofNat (n % 8))).setScore ⟨"arith_dst"⟩
    (Int32.ofNat (n / 8 % 8))).setScore ⟨"arith_target_z"⟩ (Int32.ofNat (rowOf n))

def selectJump (n : Nat) (s : State) : State :=
  ((if n < 1920 then s.setScore ⟨"jump_offset"⟩ (Int32.ofInt ((n : Int).bmod 128))
    else s).setScore ⟨"jump_target"⟩ (jumpTarget n (s.scores ⟨"ip"⟩) (s.scores ⟨"cr"⟩))).setScore
      ⟨"jump_position_z"⟩ (Int32.ofNat (rowOf n))

def selectConstant (n : Nat) (s : State) : State :=
  (s.setScore ⟨"const_imm"⟩ (Int32.ofNat (n % 256))).setScore ⟨"const_position_z"⟩
    (Int32.ofNat (rowOf n))

def selectCardArgument (n : Nat) (s : State) : State :=
  s.setScore ⟨"card_arg"⟩ (Int32.ofNat (n % 64))

def selectCard (n : Nat) (s : State) : State :=
  (selectCardArgument n s).setScore ⟨"card_position_z"⟩ (Int32.ofNat (rowOf n))

namespace Ground

variable {G : Ground} {w : World} {s : State} {n : Nat}

namespace Shows

theorem decodes (h : G.Shows w s) (opcode : s.scores ⟨"opcode"⟩ = Int32.ofNat n) : Decodes w n :=
  ⟨h.knows_machine.mono (List.subset_append_left _ _), (h.scores _ (by decide)).trans opcode⟩

theorem selectArithmetic (h : G.Shows w s) (opcode : s.scores ⟨"opcode"⟩ = Int32.ofNat n)
    (group : n / 1024 = 0) (p : Site) :
    G.Shows (w.runAll p arithmeticSelect) (selectArithmetic n s) := by
  rw [(h.decodes opcode).runAll_arithmeticSelect group]
  exact ((h.setScore (by decide) _).setScore (by decide) _).setScore (by decide) _

theorem selectJump (h : G.Shows w s) (opcode : s.scores ⟨"opcode"⟩ = Int32.ofNat n)
    (group : n / 1024 = 1) (p : Site) : G.Shows (w.runAll p jumpSelect) (selectJump n s) := by
  have ip := h.scores ⟨"ip"⟩ (by decide)
  have cr := h.scores ⟨"cr"⟩ (by decide)
  rw [(h.decodes opcode).runAll_jumpSelect group, ip, cr]
  refine Shows.setScore (Shows.setScore ?_ (by decide) _) (by decide) _
  split
  · exact h.setScore (by decide) _
  · exact h

theorem selectConstant (h : G.Shows w s) (opcode : s.scores ⟨"opcode"⟩ = Int32.ofNat n)
    (group : n / 1024 = 2) (p : Site) :
    G.Shows (w.runAll p constantSelect) (selectConstant n s) := by
  rw [(h.decodes opcode).runAll_constantSelect group]
  exact (h.setScore (by decide) _).setScore (by decide) _

theorem selectCardArgument (h : G.Shows w s) (opcode : s.scores ⟨"opcode"⟩ = Int32.ofNat n)
    (small : n < 4096) (p : Site) :
    G.Shows (w.runAll p cardArgumentSelect) (selectCardArgument n s) := by
  rw [(h.decodes opcode).runAll_cardArgumentSelect small]
  exact h.setScore (by decide) _

theorem selectCard (h : G.Shows w s) (opcode : s.scores ⟨"opcode"⟩ = Int32.ofNat n)
    (small : n < 4096) (group : n / 1024 = 3) (p : Site) :
    G.Shows (w.runAll p cardSelect) (selectCard n s) := by
  rw [(h.decodes opcode).runAll_cardSelect small group]
  exact (h.setScore (by decide) _).setScore (by decide) _

theorem siteOf (h : G.Shows w s) {name : String} {r : Nat}
    (y : Int32) (hx : (⟨s!"{name}_x"⟩, 0) ∈ fixedAxes) (hy : (⟨s!"{name}_y"⟩, y) ∈ fixedAxes)
    (apart : ⟨s!"{name}_z"⟩ ∉ Memory.scratch)
    (hz : s.scores ⟨s!"{name}_z"⟩ = Int32.ofNat r) (small : r < 2 ^ 31) :
    w.siteOf (standardVector name) = ⟨0, y.toInt, r⟩ :=
  siteOf_standardVector (x := 0) (h.axes _ hx) (h.axes _ hy) ((h.scores _ apart).trans hz) small

end Shows

theorem rowOf_small (small : n < 4096) : rowOf n < 2 ^ 31 :=
  (rowOf_lt n small).trans (by decide)

theorem dispatchesTo_arithmetic (G : Ground) : G.DispatchesTo 0 fun n s =>
    effects (stagesAt arithmeticRows (rowOf n - 1)) (selectArithmetic n s) := by
  have group := G.standard.arithmetic
  rw [G.computer_eq] at group
  obtain ⟨window, chain, lists, first, only, captured⟩ := G.exists_lists 0 (by decide) group
    (G.computer_eq ▸ emitsRows_arithmetic) isSafe_arithmeticRows
  refine lists.dispatchesTo arithmeticSelect (standardVector "arith_target") first only captured
    (fun rest ks placed => ?_) fitIn_arithmeticRows (by decide) (by decide)
    (fun h opcode _ group p => h.selectArithmetic opcode group p) fun h small _ => ?_
  · rw [G.computer_eq] at placed
    exact ⟨_, emits_arithmeticDispatch placed⟩
  · exact h.siteOf 1 (by decide) (by decide) (by decide) (State.scores_setScore_self _ _ _)
      (rowOf_small small)

theorem dispatchesTo_jump (G : Ground) : G.DispatchesTo 1 fun n s =>
    effects (stagesAt jumpRows (rowOf n - 1)) (selectJump n s) := by
  have group := G.standard.jump
  rw [G.computer_eq] at group
  obtain ⟨window, chain, lists, first, only, captured⟩ := G.exists_lists 1 (by decide) group
    (G.computer_eq ▸ emitsRows_jump) isSafe_jumpRows
  refine lists.dispatchesTo jumpSelect (standardVector "jump_position") first only captured
    (fun rest ks placed => ?_) fitIn_jumpRows (by decide) (by decide)
    (fun h opcode _ group p => h.selectJump opcode group p) fun h small _ => ?_
  · rw [G.computer_eq] at placed
    exact ⟨_, emits_jumpDispatch placed⟩
  · exact h.siteOf 2 (by decide) (by decide) (by decide) (State.scores_setScore_self _ _ _)
      (rowOf_small small)

theorem dispatchesTo_constant (G : Ground) : G.DispatchesTo 2 fun n s =>
    effects (stagesAt constantRows (rowOf n - 1)) (selectConstant n s) := by
  have group := G.standard.constant
  rw [G.computer_eq] at group
  obtain ⟨window, chain, lists, first, only, captured⟩ := G.exists_lists 2 (by decide) group
    (G.computer_eq ▸ emitsRows_constant) isSafe_constantRows
  refine lists.dispatchesTo constantSelect (standardVector "const_position") first only captured
    (fun rest ks placed => ?_) fitIn_constantRows (by decide) (by decide)
    (fun h opcode _ group p => h.selectConstant opcode group p) fun h small _ => ?_
  · rw [G.computer_eq] at placed
    exact ⟨_, emits_constantDispatch placed⟩
  · exact h.siteOf 3 (by decide) (by decide) (by decide) (State.scores_setScore_self _ _ _)
      (rowOf_small small)

theorem dispatchesTo_card (G : Ground) {values : List Variable} (cards : G.cards = values.map printCard)
    (displays : ∀ v ∈ values, Variable.IsDisplay v) : G.DispatchesTo 3 fun n s =>
      effects (stagesAt (printRows values) (rowOf n - 1))
        (if values = [] then selectCardArgument n s else selectCard n s) := by
  have group := G.standard.card
  rw [G.computer_eq, cards] at group
  rcases group.2 with dispatches | ⟨hasRows, idle⟩
  · obtain ⟨window, chain, lists, first, only, captured⟩ := G.exists_lists 3 (by decide) dispatches
      (G.computer_eq ▸ emitsRows_print values) (isSafe_printRows displays)
    have busy : values ≠ [] := by
      rintro rfl
      have length := lists.covers
      rw [List.length_eq_zero_iff.1 lists.chains.length_eq.symm] at length
      exact absurd length window.length_pos.ne
    simp only [if_neg busy]
    refine lists.dispatchesTo cardSelect (standardVector "card_position") first only captured
      (fun rest ks placed => ?_) (fitIn_printRows values) (by decide) (by decide)
      (fun h opcode small group p => h.selectCard opcode small group p) fun h small _ => ?_
    · rw [G.computer_eq] at placed
      exact ⟨_, emits_cardDispatch placed⟩
    · exact h.siteOf 4 (by decide) (by decide) (by decide) (State.scores_setScore_self _ _ _)
        (rowOf_small small)
  · obtain ⟨chain, first, isRow⟩ := hasRows.row (i := 0) rfl
    have commands := emits_cardDispatch_none.of_capturedFrom isRow.commands
    obtain rfl : values = [] := by
      cases values with
      | nil => rfl
      | cons value values =>
        obtain ⟨row, placed, isPrint⟩ := hasRows.row (i := 1) rfl
        have printed := ((emitsStages_getGeneral _ _).seq (.announce value)).emits.of_capturedFrom
          isPrint.commands
        have empty := idle row (List.mem_of_getElem? (i := 0) (by rwa [List.getElem?_tail]))
        rw [empty] at printed
        cases printed
    refine ⟨chain, cardArgumentSelect.map .unit, first, isRow.onlyChain_eq, ?_, ?_, ?_⟩
    · rw [commands, units_map_unit]
    · rw [Chain.length, commands]
      decide
    · intro s n opcode small _
      exact .commands (by decide) fun h p => h.selectCardArgument opcode small p

end Ground

def groupRows (values : List Variable) (number : Nat) : List (String × List Stage) :=
  match number with
  | 0 => arithmeticRows
  | 1 => jumpRows
  | 2 => constantRows
  | _ => printRows values

def selectState (values : List Variable) (number n : Nat) (s : State) : State :=
  match number with
  | 0 => selectArithmetic n s
  | 1 => selectJump n s
  | 2 => selectConstant n s
  | _ => if values = [] then selectCardArgument n s else selectCard n s

def runState (values : List Variable) (n : Nat) (s : State) : State :=
  effects (stagesAt (groupRows values (n / 1024)) (rowOf n - 1)) (selectState values (n / 1024) n s)

theorem Parts.mem_selectable_iff {p : Parts} {g : ChainGroup} :
    g ∈ [p.arithmetic, p.jump, p.constant, p.card] ↔ ∃ number < 4, g = p.group number := by
  simp only [List.mem_cons, List.not_mem_nil, or_false]
  constructor
  · rintro (rfl | rfl | rfl | rfl)
    · exact ⟨0, by decide, rfl⟩
    · exact ⟨1, by decide, rfl⟩
    · exact ⟨2, by decide, rfl⟩
    · exact ⟨3, by decide, rfl⟩
  · rintro ⟨number, few, rfl⟩
    obtain rfl | rfl | rfl | rfl : number = 0 ∨ number = 1 ∨ number = 2 ∨ number = 3 := by omega
    all_goals simp [group]

def State.word (s : State) : Nat :=
  (s.cells (Word.ofScore (s.scores ⟨"ip"⟩))).val

def State.fetch (s : State) : State :=
  s.setScore ⟨"opcode"⟩ (Int32.ofNat s.word)

def State.decode (n : Nat) (s : State) : State :=
  s.setScore ⟨"dispatch_position_y"⟩ (Int32.ofNat (n / 1024 + 1))

def advanceStages : List Stage :=
  [.guarded ⟨⟨"jumped"⟩, .eq, .literal 0, false⟩ (.operate ⟨"ip"⟩ .add (.literal 1)),
    .guarded ⟨⟨"jumped"⟩, .eq, .literal 0, true⟩ (.operate ⟨"jumped"⟩ .set (.literal 0))]

def State.next (values : List Variable) (s : State) : State :=
  effects advanceStages (runState values s.word (s.fetch.decode s.word))

namespace Ground

variable {G : Ground} {w : World} {s : State} {values : List Variable}

theorem Shows.decode (h : G.Shows w s) {n : Nat} (opcode : s.scores ⟨"opcode"⟩ = Int32.ofNat n)
    (small : n < 4096) (p : Site) : G.Shows (w.runAll p decode) (s.decode n) := by
  rw [(h.decodes opcode).runAll_decode small]
  exact h.setScore (by decide) _

theorem isSafe_advanceStages : ∀ stage ∈ advanceStages, stage.IsSafe := by
  decide

theorem fitsIn_cycle {window : Window} {bound : Nat} (positive : 1 ≤ bound)
    (le : window.length ≤ bound) :
    ∀ item ∈ (Machine.fetch G.head).map .unit ++ (Machine.decode.map .unit
      ++ ((Piece.executeAt G.parts.computer.splicer (standardVector "dispatch_position") window).items
      ++ advanceStages.flatMap (Stage.items G.parts.computer))), item.FitsIn bound := by
  simp only [List.forall_mem_append, List.forall_mem_map, List.forall_mem_flatMap]
  refine ⟨fun _ _ => trivial, fun _ _ => trivial, ?_, fun stage _ item mem =>
    (stage.fitsIn _ item mem).mono positive⟩
  simp only [Piece.items, List.forall_mem_cons]
  exact ⟨trivial, trivial, trivial, le, List.forall_mem_nil _⟩

section primary

variable (cards : G.cards = values.map printCard) (displays : ∀ v ∈ values, Variable.IsDisplay v)

include cards displays

theorem dispatchesTo {number : Nat} (few : number < 4) :
    G.DispatchesTo number fun n s =>
      effects (stagesAt (groupRows values number) (rowOf n - 1)) (selectState values number n s) := by
  obtain rfl | rfl | rfl | rfl : number = 0 ∨ number = 1 ∨ number = 2 ∨ number = 3 := by omega
  · exact G.dispatchesTo_arithmetic
  · exact G.dispatchesTo_jump
  · exact G.dispatchesTo_constant
  · exact G.dispatchesTo_card cards displays

section window

variable {window : Window} (covers : window.Covers ([G.parts.arithmetic, G.parts.jump, G.parts.constant,
  G.parts.card].filterMap (·.chains.head?)))

include covers

/-- The dispatch chain of the word's group is relocated, and it relocates the word's row. -/
theorem leads_dispatch {n : Nat} (small : n < 4096)
    (opcode : s.scores ⟨"opcode"⟩ = Int32.ofNat n)
    (row : s.scores ⟨"dispatch_position_y"⟩ = Int32.ofNat (n / 1024 + 1)) :
    G.Leads (Piece.executeAt G.parts.computer.splicer (standardVector "dispatch_position") window).items
      s (runState values n s) := by
  have few : n / 1024 < 4 := by omega
  obtain ⟨chain, items, first, only, commands, -, leads⟩ :=
    (dispatchesTo cards displays few).exists_chain
  have inGroups : chain ∈ [G.parts.arithmetic, G.parts.jump, G.parts.constant,
      G.parts.card].filterMap (·.chains.head?) := by
    refine List.mem_filterMap.2 ⟨G.parts.group (n / 1024), ?_, by rw [List.head?_eq_getElem?, first]⟩
    exact Parts.mem_selectable_iff.2 ⟨_, few, rfl⟩
  have has := G.laidOut.hasChain (n / 1024) few first
  have holds := holdsRow_of_hasChain has only (covers.length_le inGroups)
  rw [commands] at holds
  refine .executeAt items (fun {u} shows => ?_) ?_ holds (leads s n opcode small rfl)
  · have x := shows.axes (⟨"dispatch_position_x"⟩, 0) (by decide)
    have z := shows.axes (⟨"dispatch_position_z"⟩, 0) (by decide)
    have y := (shows.scores ⟨"dispatch_position_y"⟩ (by decide)).trans row
    rw [siteOf_standardVector (r := 0) x y z (by decide), Int32.toInt_ofNat_of_lt (by omega)]
    rfl
  · change 1 ≤ ((n / 1024 : Nat) : Int) + 1 ∧ ((n / 1024 : Nat) : Int) + 1 ≤ 6
    omega

theorem window_le : window.length ≤ 128 := by
  refine covers.le_of_forall fun chain mem => ?_
  obtain ⟨group, inGroups, first⟩ := List.mem_filterMap.1 mem
  obtain ⟨number, few, rfl⟩ := Parts.mem_selectable_iff.1 inGroups
  obtain ⟨chain', items, first', -, -, short, -⟩ := (dispatchesTo cards displays few).exists_chain
  rw [List.head?_eq_getElem?, first'] at first
  cases first
  exact short

/-- The word is fetched, dispatched and run, and the instruction register is advanced. -/
theorem leads_cycle (s : State) :
    G.Leads ((Machine.fetch G.head).map .unit ++ (Machine.decode.map .unit
      ++ ((Piece.executeAt G.parts.computer.splicer (standardVector "dispatch_position") window).items
      ++ advanceStages.flatMap (Stage.items G.parts.computer)))) s (s.next values) := by
  have fetched : G.Leads ((Machine.fetch G.head).map .unit) s s.fetch :=
    G.leads_stage (.always (.memory (.load ⟨"ip"⟩ ⟨"opcode"⟩))) (by decide) s
  have opcode : s.fetch.scores ⟨"opcode"⟩ = Int32.ofNat s.word := State.scores_setScore_self _ _ _
  have small : s.word < 4096 := Fin.isLt _
  have decoded : G.Leads (Machine.decode.map .unit) s.fetch (s.fetch.decode s.word) :=
    .commands (by decide) fun h p => h.decode opcode small p
  have opcode' : (s.fetch.decode s.word).scores ⟨"opcode"⟩ = Int32.ofNat s.word :=
    (State.scores_setScore_of_ne _ (by decide) _).trans opcode
  have dispatched := leads_dispatch cards displays covers small opcode'
    (State.scores_setScore_self _ _ _)
  exact fetched.append (decoded.append (dispatched.append (leads_stages isSafe_advanceStages _)))

end window

theorem leads_primary :
    ∃ items, G.parts.primary.commands = BlockComputer.units items ∧ (∀ item ∈ items, item.FitsIn 128) ∧
      ∀ s, G.Leads items s (s.next values) := by
  obtain ⟨window, primary⟩ := G.standard.primary
  have bound := window_le cards displays primary.covers
  have captured := primary.commands
  rw [G.computer_eq] at captured
  have splice := Emits.executeAt G.parts.computer.splicer (standardVector "dispatch_position")
    (bound.trans (by decide))
  rw [G.computer_eq] at splice
  have commands := (emits_cycle splice).of_capturedFrom captured
  refine ⟨_, ?_, fitsIn_cycle (by decide) bound, leads_cycle cards displays primary.covers⟩
  rw [commands, units_append, units_map_unit, units_append, units_map_unit, units_append, G.computer_eq]
  rfl

end primary

theorem blocks_primary (i : Nat) :
    (World.ofListing G.listing).blocks (Site.shift ⟨0, 0, 1⟩ i) = G.parts.primary.blockAt? i := by
  refine World.blocks_ofListing G.laidOut.placed G.parts.atDifferentHeights_groups ?_ i
  exact ⟨(Layout.mainGroup, G.parts.main), by simp [Parts.groups], 1, rfl, rfl⟩

/-- A world that differs from one that shows a state in the primary chain and the buffer only, and has
the primary chain as it was placed, shows the state as well. -/
theorem Shows.of_follows {v : World} {t : State} (h : G.Shows v t) (follows : Follows territory w v)
    (chain : ∀ p ∈ territory.chain, w.blocks p = (World.ofListing G.listing).blocks p) :
    G.Shows w t where
  head := (follows.agree.locate G.head).symm ▸ h.head
  cells a := by
    have outside : Word.site a ∉ territory.hidden := fun hidden => by
      have high := (Word.inMemory_site a).2.1
      rcases hidden with inChain | inBuffer
      · have height : (Word.site a).y = 0 := inChain.1
        omega
      · have depth : (Word.site a).y = -32 := inBuffer
        omega
    rw [follows.agree.blocks _ outside, h.cells a]
  scores u apart := (follows.agree.score u).trans (h.scores u apart)
  knows k mem := (follows.agree.score _).trans (h.knows k mem)
  axes a mem := (follows.agree.score _).trans (h.axes a mem)
  tags := follows.agree.entities ▸ h.tags
  units p notMemory notBuffer := by
    by_cases inChain : p ∈ territory.chain
    · exact chain p inChain
    · have outside : p ∉ territory.hidden := fun hidden => hidden.elim inChain notBuffer
      rw [follows.agree.blocks p outside, h.units p notMemory notBuffer]
  buffer p inside := follows.left_bare p (.inl (.inr inside))

theorem bufferRow_subset (n : Nat) : bufferRow n ⊆ territory.buffer := by
  rintro _ ⟨i, -, rfl⟩
  rw [bufferStart_eq]
  rfl

/-- One run of the primary chain takes the machine from a state to the next one. -/
theorem runs_cycle (cards : G.cards = values.map printCard)
    (displays : ∀ v ∈ values, Variable.IsDisplay v) (h : G.Shows w s) {limit : Nat}
    (enough : G.parts.primary.length < limit) :
    ∃ w', World.runChain limit ⟨0, 0, 1⟩ w = some w' ∧ G.Shows w' (s.next values) := by
  obtain ⟨items, commands, fits, leads⟩ := G.leads_primary cards displays
  obtain ⟨v, inPlace, shows⟩ := (leads s).runs h ⟨0, 0, 1⟩
  obtain ⟨_, primary⟩ := G.standard.primary
  have only := primary.onlyChain
  have listed (p : Site) (inChain : p ∈ territory.chain) :
      w.blocks p = (World.ofListing G.listing).blocks p := by
    have height : p.y = 0 := inChain.1
    exact h.blocks_of_low (by omega)
  have inChain (i : Nat) : Site.shift ⟨0, 0, 1⟩ i ∈ territory.chain := ⟨rfl, rfl⟩
  have block (i : Nat) : w.blocks (Site.shift ⟨0, 0, 1⟩ i) =
      (BlockComputer.units items)[i]?.map (Block.unit (kindAt .impulse i)) := by
    rw [listed _ (inChain i), blocks_primary, Chain.blockAt?, Chain.firstKind, only, commands]
    rfl
  have follows : Follows territory w w := ⟨.refl _ w, h.bare, h.bare⟩
  have holds : w.HoldsUnits ⟨0, 0, 1⟩ .impulse 0 (BlockComputer.units items) := fun i less => by
    rw [Nat.zero_add, block, List.getElem?_eq_getElem less]
    rfl
  obtain ⟨w', ran, follows', restored⟩ := follows.run (by decide : 128 ≤ greatestWindow)
    (bufferRow_subset 128) inPlace (Site.shift_zero _).symm holds (fun i _ => inChain _) fits
  have ends : w'.commandAt? ⟨0, 0, 1⟩ (Site.shift ⟨0, 0, 1⟩ (0 + (BlockComputer.units items).length)) =
      none := by
    rw [World.commandAt?, restored.chain _ (inChain _), block, Nat.zero_add,
      List.getElem?_eq_none (Nat.le_refl _)]
    rfl
  rw [Chain.length, commands] at enough
  have complete := World.runFrom_of_runUnits ran ends enough
  rw [Site.shift_zero] at complete
  exact ⟨w', complete, shows.of_follows follows' fun p inside =>
    (restored.chain p inside).trans (listed p inside)⟩

end Ground

end Machine

end BlockComputer
