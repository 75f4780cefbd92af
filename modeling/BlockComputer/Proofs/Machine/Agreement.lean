import BlockComputer.Proofs.Listing.Placement
import BlockComputer.Proofs.Machine.Table
import BlockComputer.Proofs.Relocation.Anchor

/-!
The assembler and the machine agree.

For every word that the assembler makes, the decoding commands of the primary chain and then the
dispatch commands of the selected group put the position that is handed to the splicer on the first unit
of the row that the instruction is meant for, and leave the operands where the chain in that row reads
them.
-/

namespace BlockComputer

/-- Behind these commands the chain runs the row at a position. -/
def Chain.HandsOver (chain : Chain) (splicer : Splicer) (before : List Command)
    (position : Vector3) : Prop :=
  ∃ window rest ks after, Emits (splicer.executeAt position window) () rest ks ∧
    chain.commands = before ++ (rest ++ after)

/-- Between these commands the chain makes a relocation with this window. -/
def Chain.Relocates (chain : Chain) (splicer : Splicer) (window : Window) (before : List Command)
    (position : Vector3) (after : List Command) : Prop :=
  ∃ rest ks, Emits (splicer.executeAt position window) () rest ks ∧
    chain.commands = before ++ (rest ++ after)

theorem Chain.Relocates.handsOver {chain : Chain} {splicer : Splicer} {window : Window}
    {before after : List Command} {position : Vector3}
    (h : chain.Relocates splicer window before position after) :
    chain.HandsOver splicer before position :=
  have ⟨rest, ks, placed, commands⟩ := h
  ⟨window, rest, ks, after, placed, commands⟩

theorem ChainGroup.HasRows.row {label : String} {rows : List (String × EmitM Unit)} {g : ChainGroup}
    (h : g.HasRows label rows) {i : Nat} {row : String × EmitM Unit} (here : rows[i]? = some row) :
    ∃ chain, g.chains[i]? = some chain ∧ chain.IsRow label true row := by
  obtain ⟨-, chains⟩ := h
  generalize g.chains = cs at chains ⊢
  induction chains generalizing i with
  | nil => cases here
  | cons isRow _ ih =>
    cases i with
    | zero =>
      cases here
      exact ⟨_, rfl, isRow⟩
    | succ i => exact ih here

namespace Machine

open Assembly

def fixedAxes : List (Variable × Int32) :=
  [(⟨"dispatch_position_x"⟩, 0), (⟨"dispatch_position_z"⟩, 0),
    (⟨"arith_target_x"⟩, 0), (⟨"arith_target_y"⟩, 1),
    (⟨"jump_position_x"⟩, 0), (⟨"jump_position_y"⟩, 2),
    (⟨"const_position_x"⟩, 0), (⟨"const_position_y"⟩, 3),
    (⟨"card_position_x"⟩, 0), (⟨"card_position_y"⟩, 4)]

structure IsSetUp (w : World) : Prop where
  knows : w.Knows decodeConstants
  axes : ∀ a ∈ fixedAxes, w.score a.1 = a.2

structure Fetched (w : World) (n : Nat) : Prop extends Decodes w n where
  axes : ∀ a ∈ fixedAxes, w.score a.1 = a.2
  small : n < 4096

theorem IsSetUp.fetched {w : World} (h : IsSetUp w) {n : Nat} (small : n < 4096)
    (opcode : w.score ⟨"opcode"⟩ = Int32.ofNat n) : Fetched w n :=
  ⟨⟨h.knows, opcode⟩, h.axes, small⟩

theorem rowOf_lt (n : Nat) (small : n < 4096) : rowOf n < 32 := by
  unfold rowOf
  split
  · split <;> omega
  · split <;> omega
  · omega
  · omega

theorem siteOf_standardVector {w : World} {name : String} {x y : Int32} {r : Nat}
    (hx : w.score ⟨s!"{name}_x"⟩ = x) (hy : w.score ⟨s!"{name}_y"⟩ = y)
    (hz : w.score ⟨s!"{name}_z"⟩ = Int32.ofNat r) (small : r < 2 ^ 31) :
    w.siteOf (standardVector name) = ⟨x.toInt, y.toInt, r⟩ := by
  rw [World.siteOf, standardVector, hx, hy, hz, Int32.toInt_ofNat_of_lt small]

namespace Fetched

variable {w : World} {n : Nat} (h : Fetched w n)

include h

theorem runAll_decode (q : Site) :
    Fetched (w.runAll q decode) n ∧
      (w.runAll q decode).siteOf (standardVector "dispatch_position") =
        ⟨0, (n / 1024 : Nat) + 1, 0⟩ := by
  have small := h.small
  rw [h.toDecodes.runAll_decode h.small q]
  refine ⟨⟨h.toDecodes.setScore (by decide) (by decide) _, fun a mem => ?_, h.small⟩, ?_⟩
  · have other : a.1 ≠ ⟨"dispatch_position_y"⟩ := by
      revert a
      decide
    rw [World.score_setScore_of_ne _ other, h.axes a mem]
  · have x := h.axes (⟨"dispatch_position_x"⟩, 0) (by decide)
    have z := h.axes (⟨"dispatch_position_z"⟩, 0) (by decide)
    have y : (w.setScore ⟨"dispatch_position_y"⟩ (Int32.ofNat (n / 1024 + 1))).score
        ⟨"dispatch_position_y"⟩ = Int32.ofNat (n / 1024 + 1) := World.score_setScore_self _ _ _
    rw [siteOf_standardVector (r := 0) ((World.score_setScore_of_ne _ (by decide) _).trans x) y
      ((World.score_setScore_of_ne _ (by decide) _).trans z) (by decide),
      Int32.toInt_ofNat_of_lt (by omega)]
    rfl

end Fetched

/-- In the group with this number the commands select the row of a word and take its operands out. -/
def SelectsRow (group : Nat) (select : List Command) (position : Vector3) : Prop :=
  ∀ w n q, Fetched w n → n / 1024 = group →
    (w.runAll q select).siteOf position = ⟨0, group + 1, rowOf n⟩ ∧ Selected w (w.runAll q select) n

theorem selectsRow_arithmetic : SelectsRow 0 arithmeticSelect (standardVector "arith_target") := by
  intro w n q h group
  have row := rowOf_lt n h.small
  rw [h.toDecodes.runAll_arithmeticSelect group q]
  refine ⟨?_, ?_⟩
  · refine siteOf_standardVector (x := 0) (y := 1) ?_ ?_ (World.score_setScore_self _ _ _) (by omega)
    · exact h.axes (⟨"arith_target_x"⟩, 0) (by decide)
    · exact h.axes (⟨"arith_target_y"⟩, 1) (by decide)
  · simp only [Selected, group]
    exact ⟨rfl, rfl⟩

theorem selectsRow_jump : SelectsRow 1 jumpSelect (standardVector "jump_position") := by
  intro w n q h group
  have row := rowOf_lt n h.small
  rw [h.toDecodes.runAll_jumpSelect group q]
  refine ⟨?_, ?_⟩
  · refine siteOf_standardVector (x := 0) (y := 2) ?_ ?_ (World.score_setScore_self _ _ _) (by omega)
    · have x := h.axes (⟨"jump_position_x"⟩, 0) (by decide)
      split <;> exact x
    · have y := h.axes (⟨"jump_position_y"⟩, 2) (by decide)
      split <;> exact y
  · simp only [Selected, group]
    rw [World.score_setScore_of_ne _ (by decide), World.score_setScore_self]

theorem selectsRow_constant : SelectsRow 2 constantSelect (standardVector "const_position") := by
  intro w n q h group
  have row := rowOf_lt n h.small
  rw [h.toDecodes.runAll_constantSelect group q]
  refine ⟨?_, ?_⟩
  · refine siteOf_standardVector (x := 0) (y := 3) ?_ ?_ (World.score_setScore_self _ _ _) (by omega)
    · exact h.axes (⟨"const_position_x"⟩, 0) (by decide)
    · exact h.axes (⟨"const_position_y"⟩, 3) (by decide)
  · simp only [Selected, group]
    rfl

theorem selectsRow_card : SelectsRow 3 cardSelect (standardVector "card_position") := by
  intro w n q h group
  have row := rowOf_lt n h.small
  rw [h.toDecodes.runAll_cardSelect h.small group q]
  refine ⟨?_, ?_⟩
  · refine siteOf_standardVector (x := 0) (y := 4) ?_ ?_ (World.score_setScore_self _ _ _) (by omega)
    · exact h.axes (⟨"card_position_x"⟩, 0) (by decide)
    · exact h.axes (⟨"card_position_y"⟩, 4) (by decide)
  · simp only [Selected, group]
    rfl

section chains

variable {head cloner fetcher : Entity} {window : Window} {chain : Chain}

/-- A chain that was captured makes its relocation, whether or not its window can be counted: if it cannot
there is no such chain. -/
theorem relocates_of_capturedFrom {x : EmitM Unit} {splicer : Splicer} {position : Vector3}
    {select : List Command} (window : Window) (after : List Command)
    (emits : ∀ rest ks, Emits (splicer.executeAt position window) () rest ks →
      ∃ ls, Emits x () (select ++ (rest ++ after)) ls)
    (fails : (Ensures (splicer.executeAt position window) fun _ => False) → Ensures x fun _ => False)
    (captured : CapturedFrom x chain.commands) :
    chain.Relocates splicer window select position after := by
  rcases splicer.emitsOrFails_executeAt position window with ⟨rest, ks, placed⟩ | never
  · obtain ⟨ls, emitted⟩ := emits rest ks placed
    exact ⟨rest, ks, placed, emitted.of_capturedFrom captured⟩
  · exact (captured.false_of_fails (fails never)).elim

theorem relocates_of_capturedFrom_last {x : EmitM Unit} {splicer : Splicer} {position : Vector3}
    {select : List Command} (window : Window)
    (emits : ∀ rest ks, Emits (splicer.executeAt position window) () rest ks →
      ∃ ls, Emits x () (select ++ rest) ls)
    (fails : (Ensures (splicer.executeAt position window) fun _ => False) → Ensures x fun _ => False)
    (captured : CapturedFrom x chain.commands) :
    chain.Relocates splicer window select position [] := by
  refine relocates_of_capturedFrom window [] (fun rest ks placed => ?_) fails captured
  rw [List.append_nil]
  exact emits rest ks placed

theorem relocates_arithmetic
    (captured : CapturedFrom ((Computer.standard head cloner fetcher).arithmeticDispatch .standard
      window) chain.commands) :
    chain.Relocates ⟨cloner⟩ window arithmeticSelect (standardVector "arith_target") [] := by
  refine relocates_of_capturedFrom_last window (fun rest ks placed => ⟨_, emits_arithmeticDispatch placed⟩)
    (fun never => ?_) captured
  exact .bind (.any _) fun _ _ => .bind (.any _) fun _ _ => .bind (.any _) fun _ _ =>
    .bind (.any _) fun _ _ => .bind (.any _) fun _ _ => .bind (.any _) fun _ _ => never

theorem relocates_jump
    (captured : CapturedFrom ((Computer.standard head cloner fetcher).jumpDispatch .standard window)
      chain.commands) :
    chain.Relocates ⟨cloner⟩ window jumpSelect (standardVector "jump_position") [] := by
  refine relocates_of_capturedFrom_last window (fun rest ks placed => ⟨_, emits_jumpDispatch placed⟩)
    (fun never => ?_) captured
  exact .bind (.any _) fun _ _ => .bind (.any _) fun _ _ => never

theorem relocates_constant
    (captured : CapturedFrom ((Computer.standard head cloner fetcher).constantDispatch .standard
      window) chain.commands) :
    chain.Relocates ⟨cloner⟩ window constantSelect (standardVector "const_position") [] := by
  refine relocates_of_capturedFrom_last window (fun rest ks placed => ⟨_, emits_constantDispatch placed⟩)
    (fun never => ?_) captured
  exact .bind (.any _) fun _ _ => .bind (.any _) fun _ _ => .bind (.any _) fun _ _ =>
      .bind (.any _) fun _ _ => .bind (.any _) fun _ _ => never

theorem relocates_card
    (captured : CapturedFrom ((Computer.standard head cloner fetcher).cardDispatch
      (standardVector "card_position") (some window)) chain.commands) :
    chain.Relocates ⟨cloner⟩ window cardSelect (standardVector "card_position") [] := by
  refine relocates_of_capturedFrom_last window (fun rest ks placed => ⟨_, emits_cardDispatch placed⟩)
    (fun never => ?_) captured
  exact .bind (.any _) fun _ _ => .bind (.any _) fun _ _ => .bind (.any _) fun _ _ =>
      .bind (.any _) fun _ _ => .bind (.any _) fun _ _ => never

theorem relocates_primary
    (captured : CapturedFrom ((Computer.standard head cloner fetcher).cycle
      (standardVector "dispatch_position") window) chain.commands) :
    chain.Relocates ⟨cloner⟩ window (fetch head ++ decode) (standardVector "dispatch_position")
      advance := by
  refine relocates_of_capturedFrom window advance (fun rest ks placed => ?_) (fun never => ?_) captured
  · rw [List.append_assoc]
    exact ⟨_, emits_cycle placed⟩
  · exact .bind (.any _) fun _ _ => .bind (.any _) fun _ _ => .bind (.any _) fun _ _ =>
      .bind (.any _) fun _ _ => .bind never fun _ absurd => absurd.elim

theorem handsOver_primary
    (captured : CapturedFrom ((Computer.standard head cloner fetcher).cycle
      (standardVector "dispatch_position") window) chain.commands) :
    chain.HandsOver ⟨cloner⟩ (fetch head ++ decode) (standardVector "dispatch_position") :=
  (relocates_primary captured).handsOver

end chains

namespace Parts

variable (p : Parts)

/-- The parts of a listing. -/
structure LaidOut (cards : List (Card Id)) (program : List UInt16) (listing : Listing) : Prop where
  made : ∃ s s', perform (make cards program) s = (.ok p, s')
  placed : Listing.ofGroups p.groups = .ok listing

theorem exists_laidOut {cards : List (Card Id)} {program : List UInt16} {s s' : Session}
    {listing : Listing} (built : perform (build cards program) s = (.ok listing, s')) :
    ∃ p : Parts, p.LaidOut cards program listing := by
  rw [build_eq] at built
  obtain ⟨p, t, made, lifted⟩ := perform_bind_eq_ok built
  exact ⟨p, ⟨s, t, made⟩, (perform_lift_eq_ok lifted).1⟩

def group (number : Nat) : ChainGroup :=
  match number with
  | 0 => p.arithmetic
  | 1 => p.jump
  | 2 => p.constant
  | _ => p.card

/-- The chain stands at the site, in the layout and so in the world of the listing. -/
structure HasChain (listing : Listing) (chain : Chain) (site : Site) : Prop where
  stands : StandsAt p.groups chain site
  blocks : ∀ i, (World.ofListing listing).blocks (site.shift i) = chain.blockAt? i

theorem atDifferentHeights_groups : AtDifferentHeights p.groups := by
  change List.Nodup [Layout.mainGroup.site.y, Layout.arithmeticGroup.site.y, Layout.jumpGroup.site.y,
    Layout.constantGroup.site.y, Layout.cardGroup.site.y, Layout.registerBank.site.y]
  decide

variable {p}

theorem standsAt_group {number row : Nat} {chain : Chain} (few : number < 4)
    (here : (p.group number).chains[row]? = some chain) :
    StandsAt p.groups chain ⟨0, number + 1, row⟩ := by
  have place {q : Position} {g : ChainGroup} (mem : (q, g) ∈ p.groups)
      (inGroup : g.chains[row]? = some chain) : StandsAt p.groups chain (q.site.south row) :=
    ⟨(q, g), mem, row, inGroup, rfl⟩
  have south (y : Int32) : (Position.absolute 0 y 0).site.south row = ⟨0, y.toInt, row⟩ := by
    simp [Position.site, Position.absolute, Site.south]
  obtain rfl | rfl | rfl | rfl : number = 0 ∨ number = 1 ∨ number = 2 ∨ number = 3 := by omega
  · exact south 1 ▸ place (by simp [groups, group, Layout.arithmeticGroup]) here
  · exact south 2 ▸ place (by simp [groups, group, Layout.jumpGroup]) here
  · exact south 3 ▸ place (by simp [groups, group, Layout.constantGroup]) here
  · exact south 4 ▸ place (by simp [groups, group, Layout.cardGroup]) here

theorem LaidOut.hasChain {cards : List (Card Id)} {program : List UInt16} {listing : Listing}
    (h : p.LaidOut cards program listing) (number : Nat) {row : Nat} {chain : Chain} (few : number < 4)
    (here : (p.group number).chains[row]? = some chain) :
    p.HasChain listing chain ⟨0, number + 1, row⟩ := by
  have stands := standsAt_group few here
  exact ⟨stands, World.blocks_ofListing h.placed p.atDifferentHeights_groups stands⟩

/-- The group's dispatch chain selects rows, and the rows are the ones with these names. -/
structure DispatchesGroup (p : Parts) (number : Nat) : Prop where
  selects : ∃ chain select position, (p.group number).chains[0]? = some chain ∧
    chain.HandsOver p.computer.splicer select position ∧ SelectsRow number select position
  rows : ∀ (i : Nat) name, (rowNames number)[i]? = some name →
    ∃ chain, (p.group number).chains[i + 1]? = some chain ∧
      chain.label = rowLabel (groupLabel number) name ∧ (name = "reserved" → chain.commands = [])

theorem dispatchesGroup_of_dispatches (number : Nat) {dispatch : Window → EmitM Unit}
    {rows : List (String × EmitM Unit)}
    (h : Dispatches (groupLabel number) dispatch rows (p.group number)) {select : List Command}
    {position : Vector3}
    (hands : ∀ window (chain : Chain), CapturedFrom (dispatch window) chain.commands →
      chain.HandsOver p.computer.splicer select position)
    (selects : SelectsRow number select position) (names : rows.map Prod.fst = rowNames number)
    (idle : ∀ row ∈ rows, row.1 = "reserved" → row.2 = pure ()) : p.DispatchesGroup number := by
  obtain ⟨window, hasRows, -⟩ := h
  refine ⟨?_, fun i name here => ?_⟩
  · obtain ⟨chain, first, -, -, captured⟩ := hasRows.row (i := 0) rfl
    exact ⟨chain, select, position, first, hands window chain captured, selects⟩
  · rw [← names, List.getElem?_map, Option.map_eq_some_iff] at here
    obtain ⟨row, here, rfl⟩ := here
    obtain ⟨chain, placed, labelled, -, captured⟩ := hasRows.row (i := i + 1) here
    refine ⟨chain, placed, labelled, fun reserved => ?_⟩
    have body := idle row (List.mem_of_getElem? here) reserved
    rw [body] at captured
    exact (Emits.pure ()).of_capturedFrom captured

variable {cards : List (Card Id)} {head cloner fetcher : Entity}

theorem IsStandard.dispatchesGroup_arithmetic (h : p.IsStandard cards head cloner fetcher) :
    p.DispatchesGroup 0 := by
  refine dispatchesGroup_of_dispatches 0 h.arithmetic (fun window chain captured => ?_)
    selectsRow_arithmetic rfl ?_
  · rw [h.computer] at captured ⊢
    exact (relocates_arithmetic captured).handsOver
  · simp [Computer.binaryRows, Computer.unaryRows, Computer.reservedRow]

theorem IsStandard.dispatchesGroup_jump (h : p.IsStandard cards head cloner fetcher) :
    p.DispatchesGroup 1 := by
  refine dispatchesGroup_of_dispatches 1 h.jump (fun window chain captured => ?_)
    selectsRow_jump rfl ?_
  · rw [h.computer] at captured ⊢
    exact (relocates_jump captured).handsOver
  · simp [Computer.jumpRows]

theorem IsStandard.dispatchesGroup_constant (h : p.IsStandard cards head cloner fetcher) :
    p.DispatchesGroup 2 := by
  refine dispatchesGroup_of_dispatches 2 h.constant (fun window chain captured => ?_)
    selectsRow_constant rfl ?_
  · rw [h.computer] at captured ⊢
    exact (relocates_constant captured).handsOver
  · simp [Computer.constantRows]

/-- The chain in the row that a word has been sent to is meant for the instruction: it has that name, it
is empty or a return that does nothing, or it is the chain of the card. -/
def IsMeant (p : Parts) (cards : List (Card Id)) (listing : Listing) (meaning : Meaning)
    (operands : List Operand) (after : World) (site : Site) : Prop :=
  match meaning with
  | .row group name => ∃ chain, p.HasChain listing chain site ∧ chain.label = rowLabel group name
  | .reserved => ∃ chain, p.HasChain listing chain site ∧
      (chain.commands = [] ∨
        chain.label = rowLabel "arithmetic" "ret" ∧ after.score ⟨"arith_src"⟩ ≠ 0)
  | .card => ∃ i j, operands = [i, j] ∧ site = ⟨0, 4, i.value % 16 + 1⟩ ∧
      ∀ card, cards[(i.value % 16).toNat]? = some card →
        ∃ chain, p.HasChain listing chain site ∧ chain.label = rowLabel "card" card.name ∧
          CapturedFrom (card.generate p.computer) chain.commands

theorem isMeant_of_fits {listing : Listing} {chain : Chain} {site : Site} {meaning : Meaning}
    {operands : List Operand} {after : World} {group name : String} {n : Nat}
    (stands : p.HasChain listing chain site) (labelled : chain.label = rowLabel group name)
    (reserved : name = "reserved" → chain.commands = [])
    (fit : fits meaning group name n)
    (source : group = "arithmetic" → after.score ⟨"arith_src"⟩ = Int32.ofNat (n % 8)) :
    p.IsMeant cards listing meaning operands after site := by
  cases meaning with
  | row group' name' =>
    simp only [fits, decide_eq_true_eq] at fit
    obtain ⟨rfl, rfl⟩ := fit
    exact ⟨chain, stands, labelled⟩
  | card => cases fit
  | reserved =>
    simp only [fits, decide_eq_true_eq] at fit
    refine ⟨chain, stands, ?_⟩
    rcases fit with empty | ⟨rfl, rfl, nonzero⟩
    · exact .inl (reserved empty)
    · refine .inr ⟨labelled, ?_⟩
      rw [source rfl]
      intro zero
      have toInt := congrArg Int32.toInt zero
      rw [Int32.toInt_ofNat_of_lt (by omega), Int32.toInt_zero] at toInt
      omega

/-- Decoding reaches the dispatch chain of a group, and behind its selecting commands the operands are in
place and the row that is to be run is the one that the instruction is meant for. Where no card has
commands, the cards' dispatch runs no row. -/
def Reaches (p : Parts) (cards : List (Card Id)) (listing : Listing) (w : World) (mnemonic : String)
    (operands : List Operand) : Prop :=
  ∀ q q' : Site, ∃ dispatch select,
    p.HasChain listing dispatch ((w.runAll q decode).siteOf (standardVector "dispatch_position")) ∧
    OperandsHold w ((w.runAll q decode).runAll q' select) mnemonic operands ∧
    ((∃ position, dispatch.HandsOver p.computer.splicer select position ∧
        p.IsMeant cards listing (meaning mnemonic (operands.map Operand.kind)) operands
          ((w.runAll q decode).runAll q' select)
          (((w.runAll q decode).runAll q' select).siteOf position)) ∨
      mnemonic = "card" ∧ dispatch.commands = select ∧
        ∀ (row : Nat) chain, p.card.chains[row + 1]? = some chain → chain.commands = [])

variable {program : List UInt16} {listing : Listing} {w : World} {e : Encoding}
  {operands : List Operand} {n : Nat}

theorem selected_of_decode {after : World} (h : Fetched w n) {q : Site}
    (selected : Selected (w.runAll q decode) after n) : Selected w after n := by
  rw [h.toDecodes.runAll_decode h.small q] at selected
  exact selected

/-- Every instruction but that of a card reaches its row. -/
theorem reaches_of_dispatchesGroup (laidOut : p.LaidOut cards program listing)
    (group : p.DispatchesGroup (firstWord e / 1024)) (mem : e ∈ instructionSet)
    (notCard : e.mnemonic ≠ "card") (kinds : e.kinds = operands.map Operand.kind)
    (sound : ∀ v ∈ operands, v.IsSound) (word : e.IsWord (operands.map Operand.value) n)
    (fetched : Fetched w n) : p.Reaches cards listing w e.mnemonic operands := by
  intro q q'
  obtain ⟨-, few, name, named, ret, fit⟩ := instructionSet_rows e mem notCard
  have number : firstWord e / 1024 < 4 := Nat.lt_succ_of_lt few
  obtain ⟨sameGroup, sameRow⟩ := group_eq mem notCard word
  obtain ⟨⟨dispatch, select, position, first, hands, selects⟩, rows⟩ := group
  obtain ⟨decoded, at_⟩ := fetched.runAll_decode q
  obtain ⟨site, selected⟩ := selects _ n q' decoded sameGroup
  obtain ⟨chain, placed, labelled, reserved⟩ := rows _ name named
  have positive : rowOf (firstWord e) - 1 + 1 = rowOf n := by
    rw [← sameRow]
    unfold rowOf
    split <;> (try split) <;> omega
  rw [positive] at placed
  refine ⟨dispatch, select, ?_, ?_, .inl ⟨position, hands, ?_⟩⟩
  · rw [at_, sameGroup]
    exact laidOut.hasChain _ number first
  · exact operandsHold mem kinds sound word (selected_of_decode fetched selected)
  · rw [site, ← kinds]
    refine isMeant_of_fits (laidOut.hasChain _ number placed) labelled reserved
      (fits_congr (fun named => eq_firstWord (ret named) word) fit) fun arithmetic => ?_
    have zero : firstWord e / 1024 = 0 := by
      generalize firstWord e / 1024 = k at arithmetic number
      revert arithmetic
      revert k
      decide
    simp only [Selected, sameGroup.trans zero] at selected
    exact selected.1

theorem rowOf_card {i j : Operand} (named : e.mnemonic = "card") (mem : e ∈ instructionSet)
    (word : e.IsWord [i.value, j.value] n) :
    n / 1024 = 3 ∧ rowOf n = (i.value % 16).toNat + 1 := by
  have only : ∀ e ∈ instructionSet, e.mnemonic = "card" →
      e.freeBits = 10 ∧ e.opcode = 3 ∧ e.slots = [⟨4, 6⟩, ⟨6, 0⟩] := by decide
  obtain ⟨bits, opcode, fields⟩ := only e mem named
  have top := word.top
  rw [bits, opcode] at top
  have slot := word.slots
  rw [fields] at slot
  have read := slot (⟨4, 6⟩, i.value) (by simp)
  have group : n / 1024 = 3 := top
  refine ⟨group, ?_⟩
  rw [rowOf, group]
  exact congrArg (· + 1) read

theorem reaches_card (laidOut : p.LaidOut cards program listing)
    (standard : p.IsStandard cards head cloner fetcher) (mem : e ∈ instructionSet)
    (named : e.mnemonic = "card") (kinds : e.kinds = operands.map Operand.kind)
    (sound : ∀ v ∈ operands, v.IsSound) (word : e.IsWord (operands.map Operand.value) n)
    (fetched : Fetched w n) : p.Reaches cards listing w "card" operands := by
  intro q q'
  have numbers : ∀ e ∈ instructionSet, e.mnemonic = "card" →
      e.kinds = [.immediate, .immediate] := by decide
  obtain ⟨i, j, rfl⟩ : ∃ i j, operands = [i, j] := by
    rw [← List.length_eq_two, ← List.length_map Operand.kind, ← kinds, numbers e mem named]
    rfl
  obtain ⟨group, row⟩ := rowOf_card named mem word
  obtain ⟨decoded, at_⟩ := fetched.runAll_decode q
  rw [group] at at_
  have hold {after : World} (selected : Selected (w.runAll q decode) after n) :
      OperandsHold w after "card" [i, j] :=
    named ▸ operandsHold mem kinds sound word (selected_of_decode fetched selected)
  rcases standard.card.2 with ⟨window, rows, -⟩ | ⟨rows, idle⟩
  · obtain ⟨dispatch, first, -, -, captured⟩ := rows.row (i := 0) rfl
    obtain ⟨site, selected⟩ := selectsRow_card _ n q' decoded group
    refine ⟨dispatch, cardSelect, ?_, hold selected, .inl ⟨standardVector "card_position", ?_, ?_⟩⟩
    · rw [at_]
      exact laidOut.hasChain 3 (by decide) first
    · rw [standard.computer] at captured ⊢
      exact (relocates_card captured).handsOver
    · have nonneg : 0 ≤ i.value % 16 := Int.emod_nonneg _ (by decide)
      rw [site, row, ← kinds, numbers e mem named]
      refine ⟨i, j, rfl, by simp [Int.toNat_of_nonneg nonneg], fun card here => ?_⟩
      have isRow : (p.computer.cardRows cards)[(i.value % 16).toNat]? =
          some (card.name, card.generate p.computer) := by simp [Computer.cardRows, here]
      obtain ⟨chain, placed, labelled, -, made⟩ := rows.row (i := (i.value % 16).toNat + 1) isRow
      exact ⟨chain, laidOut.hasChain 3 (by decide) placed, labelled, made⟩
  · obtain ⟨dispatch, first, -, -, captured⟩ := rows.row (i := 0) rfl
    rw [standard.computer] at captured
    have commands := emits_cardDispatch_none.of_capturedFrom captured
    refine ⟨dispatch, cardArgumentSelect, ?_, hold ?_, .inr ⟨rfl, commands, fun row chain here => ?_⟩⟩
    · rw [at_]
      exact laidOut.hasChain 3 (by decide) first
    · rw [decoded.toDecodes.runAll_cardArgumentSelect fetched.small]
      simp only [Selected, group]
      exact World.score_setScore_self _ _ _
    · refine idle chain (List.mem_of_getElem? (i := row) ?_)
      rw [List.getElem?_tail]
      exact here

end Parts

/-- The assembler and the machine agree on every word. -/
theorem words_reach_their_rows {cards : List (Card Id)} {program : List UInt16} {s s' : Session}
    {listing : Listing} (built : perform (build cards program) s = (.ok listing, s'))
    {line : List Char} {word : UInt16} (encoded : encodeLine line = .ok word) :
    ∃ p : Parts, p.LaidOut cards program listing ∧
      p.primary.HandsOver p.computer.splicer (fetch p.computer.memory.head ++ decode)
        (standardVector "dispatch_position") ∧
      ∃ mnemonic operands, Reads line mnemonic operands ∧
        ∀ w : World, IsSetUp w → w.score ⟨"opcode"⟩ = Int32.ofNat word.toNat →
          p.Reaches cards listing w mnemonic operands := by
  obtain ⟨p, laidOut⟩ := Parts.exists_laidOut built
  obtain ⟨t, t', made⟩ := laidOut.made
  obtain ⟨head, cloner, fetcher, standard⟩ := Parts.ensures_make cards program t p t' made
  obtain ⟨mnemonic, operands, reads, assembled⟩ := encodeLine_eq_ok encoded
  obtain ⟨e, mem, rfl, kinds, encodes⟩ := assemble_eq_ok assembled
  have isWord := Encoding.isWord_of_encode mem encodes
  obtain ⟨window, primary⟩ := standard.primary
  have captured := primary.commands
  refine ⟨p, laidOut, ?_, e.mnemonic, operands, reads, fun w setUp opcode => ?_⟩
  · rw [standard.computer] at captured ⊢
    exact handsOver_primary captured
  · have fetched := setUp.fetched isWord.small opcode
    by_cases card : e.mnemonic = "card"
    · rw [card]
      exact Parts.reaches_card laidOut standard mem card kinds reads.isSound isWord fetched
    · have few := (instructionSet_rows e mem card).2.1
      refine Parts.reaches_of_dispatchesGroup laidOut ?_ mem card kinds reads.isSound isWord fetched
      generalize firstWord e / 1024 = number at few
      obtain rfl | rfl | rfl : number = 0 ∨ number = 1 ∨ number = 2 := by omega
      · exact standard.dispatchesGroup_arithmetic
      · exact standard.dispatchesGroup_jump
      · exact standard.dispatchesGroup_constant

/-- A world that is set up, with a running word. -/
def setUpWorld (n : Nat) : World where
  scores := (List.lookup · ((⟨"opcode"⟩, Int32.ofNat n) :: fixedAxes
    ++ decodeConstants.map fun k => (constantNamed k, k)))

theorem words_reach_their_rows_add :
    ∃ (p : Parts) (mnemonic : String) (operands : List Operand) (listing : Listing) (s' : Session),
      perform (build [printCard ⟨"shown"⟩] []) {} = (.ok listing, s') ∧
      Reads "add a0, t1".toList mnemonic operands ∧ IsSetUp (setUpWorld 68) ∧
      p.Reaches [printCard ⟨"shown"⟩] listing (setUpWorld 68) mnemonic operands := by
  have succeeds : (perform (build [printCard ⟨"shown"⟩] []) {}).1.toBool = true := by decide +kernel
  have encoded : encodeLine "add a0, t1".toList = .ok 68 := by decide +kernel
  have known : decodeConstants.all fun k => (setUpWorld 68).score (constantNamed k) = k := by decide
  have setUp : IsSetUp (setUpWorld 68) := by
    refine ⟨fun k mem => ?_, by decide⟩
    simpa using List.all_eq_true.1 known k mem
  cases built : perform (build [printCard ⟨"shown"⟩] []) {} with
  | mk outcome s' =>
    rw [built] at succeeds
    cases outcome with
    | error e => cases succeeds
    | ok listing =>
      obtain ⟨p, -, -, mnemonic, operands, reads, reaches⟩ := words_reach_their_rows built encoded
      exact ⟨p, mnemonic, operands, listing, s', rfl, reads, setUp, reaches _ setUp (by decide)⟩

end Machine

end BlockComputer
