import BlockComputer.Proofs.Emission.Growth
import BlockComputer.Proofs.Machine.Agreement
import BlockComputer.Proofs.Machine.Arithmetic
import BlockComputer.Proofs.Machine.Control

/-!
How a machine is made.

Where its names are free, a machine with print cards is always made: its groups are the same in every
session, and what they add to the session is a list of variables and of numbers. Every chain is short.
-/

namespace BlockComputer

namespace Window

theorem covering_short (label : String) {chains : List Chain} {bound : Nat}
    (short : ∀ chain ∈ chains, chain.length ≤ bound) (used : ∃ chain ∈ chains, chain.commands ≠ []) :
    ∃ w, covering label chains = .ok w ∧ w.length ≤ bound := by
  obtain ⟨chain, mem, busy⟩ := used
  obtain ⟨w, covered, covers⟩ := covering_eq_ok label fun empty => busy (empty chain mem)
  exact ⟨w, covered, covers.le_of_forall short⟩

end Window

namespace Machine

structure Compact (g : ChainGroup) : Prop where
  chains : ∀ chain ∈ g.chains, chain.onlyChain = true ∧ chain.length ≤ 128
  few : g.chains.length ≤ 64

def rowEntries (c : Computer) (table : List (String × List Stage)) :
    List (String × List Command × List Int32) :=
  table.map fun entry =>
    (entry.1, units (entry.2.flatMap (Stage.items c)), entry.2.flatMap Stage.constants)

theorem EmitsRows.forall₂ {c : Computer} {rows : List (String × EmitM Unit)}
    {table : List (String × List Stage)} (h : EmitsRows c rows table) :
    List.Forall₂ (fun row entry => row.1 = entry.1 ∧ Emits row.2 () entry.2.1 entry.2.2) rows
      (rowEntries c table) := by
  rw [rowEntries, List.forall₂_map_right_iff]
  exact h.imp fun _ _ related => ⟨related.1, related.2.emits⟩

def groupAdditions (vars : List (String × Int32)) (table : List (String × List Stage))
    (ks : List Int32) : List Addition :=
  .ofVars vars :: (table.map fun entry => .ofNumbers (entry.2.flatMap Stage.constants))
    ++ [.ofNumbers ks]

theorem declaredNames_groupAdditions (vars : List (String × Int32))
    (table : List (String × List Stage)) (ks : List Int32) :
    declaredNames (groupAdditions vars table ks) = vars.map Prod.fst := by
  simp [declaredNames, groupAdditions, Addition.ofVars, Addition.ofNumbers, List.flatMap_map]

theorem vars_groupAdditions (vars : List (String × Int32)) (table : List (String × List Stage))
    (ks : List Int32) : (groupAdditions vars table ks).flatMap Addition.vars = vars := by
  simp [groupAdditions, Addition.ofVars, Addition.ofNumbers, List.flatMap_map]

def tableGroup (c : Computer) (label : String) (table : List (String × List Stage)) : ChainGroup where
  label := label
  onlyChain := true
  chains := (rowEntries c table).map (Builds.rowChain label true)

section groups

variable {head cloner fetcher : Entity} {label : String} {table : List (String × List Stage)}

theorem builds_tableGroup {c : Computer} {rows : List (String × EmitM Unit)}
    (emits : EmitsRows c rows table) :
    Builds (ChainGroup.addRows { label, onlyChain := true } rows) (tableGroup c label table)
      (table.map fun entry => .ofNumbers (entry.2.flatMap Stage.constants)) := by
  have built := Builds.addRows emits.forall₂ { label, onlyChain := true }
  simpa [tableGroup, rowEntries, Function.comp_def] using built

theorem short_tableGroup (short : FitIn 64 table) :
    ∀ chain ∈ (tableGroup (.standard head cloner fetcher) label table).chains,
      chain.onlyChain = true ∧ chain.length ≤ 64 := by
  intro chain mem
  simp only [tableGroup, rowEntries, List.map_map, List.mem_map] at mem
  obtain ⟨entry, inTable, rfl⟩ := mem
  exact ⟨rfl, short _ _ _ entry inTable⟩

theorem compact_prepend (short : FitIn 64 table) (few : table.length ≤ 63) {dispatch : Chain}
    (only : dispatch.onlyChain = true) (shortDispatch : dispatch.length ≤ 128) :
    Compact ((tableGroup (.standard head cloner fetcher) label table).prepend dispatch) where
  chains := by
    refine List.forall_mem_cons.2 ⟨⟨only, shortDispatch⟩, fun chain mem => ?_⟩
    obtain ⟨only, length⟩ := short_tableGroup short chain mem
    exact ⟨only, by omega⟩
  few := by
    simp only [ChainGroup.prepend, tableGroup, rowEntries, List.length_cons, List.length_map]
    omega

theorem exists_dispatch (head cloner fetcher : Entity) {dispatch : Window → EmitM Unit} {ks : List Int32}
    {select : List Command}
    {position : Vector3} (short : FitIn 64 table) (few : table.length ≤ 63)
    (used : ∃ entry ∈ table, units (entry.2.flatMap (Stage.items (.standard head cloner fetcher))) ≠ [])
    (shortSelect : select.length ≤ 32)
    (emits : ∀ window rest ks', Emits (Splicer.executeAt ⟨cloner⟩ position window) () rest ks' →
      Emits (dispatch window) () (select ++ rest) (ks ++ ks')) (label name : String) :
    let g := tableGroup (.standard head cloner fetcher) label table
    ∃ window chain, Window.ofGroup g = .ok window ∧
      Builds (captureChain name true (dispatch window)) chain [.ofNumbers ks] ∧
      chain.commands ≠ [] ∧ Compact (g.prepend chain) := by
  intro g
  have busy : ∃ chain ∈ g.chains, chain.commands ≠ [] := by
    obtain ⟨entry, mem, busy⟩ := used
    exact ⟨_, List.mem_map_of_mem (List.mem_map_of_mem mem), busy⟩
  obtain ⟨window, covered, bound⟩ :=
    Window.covering_short g.label (fun chain mem => (short_tableGroup short chain mem).2) busy
  have emitted := emits window _ _ (Emits.executeAt ⟨cloner⟩ position (bound.trans (by decide)))
  rw [List.append_nil] at emitted
  refine ⟨window, _, (Window.ofGroup_eq g).trans covered, .captureChain emitted name true, ?_,
    compact_prepend short few rfl ?_⟩
  · simp [Piece.items, Item.commands]
  · simp [Chain.length, Piece.items, Item.commands]
    omega

def MakesGroup (x : EmitM ChainGroup) (adds : List Addition) : Prop :=
  ∃ g, Builds x g adds ∧ Compact g ∧ ∃ chain, g.chains.head? = some chain ∧ chain.commands ≠ []

theorem makesGroup_rows {σ : Type} {create : EmitM σ} {standard : σ}
    {vars : List (String × Int32)} (declares : DeclaresInit create standard vars)
    (rows : σ → List (String × EmitM Unit)) (dispatch : σ → Window → EmitM Unit) {name : String}
    {ks : List Int32} {select : List Command} {position : Vector3}
    (emits : EmitsRows (.standard head cloner fetcher) (rows standard) table) (short : FitIn 64 table)
    (few : table.length ≤ 63)
    (used : ∃ entry ∈ table, units (entry.2.flatMap (Stage.items (.standard head cloner fetcher))) ≠ [])
    (shortSelect : select.length ≤ 32)
    (dispatched : ∀ window rest ks', Emits (Splicer.executeAt ⟨cloner⟩ position window) () rest ks' →
      Emits (dispatch standard window) () (select ++ rest) (ks ++ ks')) :
    MakesGroup (do
      let scores ← create
      let group ← ChainGroup.addRows { label, onlyChain := true } (rows scores)
      let window ← (liftM (Window.ofGroup group) : EmitM Window)
      return group.prepend (← captureChain name true (dispatch scores window)))
      (groupAdditions vars table ks) := by
  obtain ⟨window, chain, covered, captured, starts, compact⟩ :=
    exists_dispatch head cloner fetcher short few used shortSelect dispatched label name
  refine ⟨_, ?_, compact, chain, rfl, starts⟩
  have steps : groupAdditions vars table ks = [.ofVars vars] ++
      ((table.map fun entry => .ofNumbers (entry.2.flatMap Stage.constants)) ++
        ([] ++ ([.ofNumbers ks] ++ []))) := by simp [groupAdditions]
  rw [steps]
  exact .bind (.of_declaresInit declares) <| .bind (builds_tableGroup emits) <|
    .bind (.lift covered) <| .bind captured (.pure _)

end groups

def arithmeticAdditions : List Addition :=
  groupAdditions (("arith_src", 0) :: ("arith_dst", 0) :: ("arith_a", 0) :: ("arith_b", 0) ::
    vectorScores "arith_target" Layout.arithmeticGroup) arithmeticRows [8, 8, 8, 64, 16, 8]

def jumpAdditions : List Addition :=
  groupAdditions (("jump_target", 0) :: ("jump_offset", 0) :: ("return_address", 0) ::
    vectorScores "jump_position" Layout.jumpGroup) jumpRows [128, 128, 8, 16, 256, 16, 8]

def constantAdditions : List Addition :=
  groupAdditions (("const_imm", 0) :: vectorScores "const_position" Layout.constantGroup) constantRows
    [256, 256, 4]

def cardAdditions (values : List Variable) : List Addition :=
  groupAdditions (vectorScores "card_position" Layout.cardGroup) (printRows values)
    (if values = [] then [64] else [64, 64, 16])

def bankAdditions : List Addition :=
  List.replicate 4 (.ofNumbers [])

def primaryAdditions : List Addition :=
  [.ofVars (vectorScores "dispatch_position" Layout.arithmeticGroup),
    .ofNumbers [16, 16, 16, 256, 16, 64, 1024]]

def hardwareAdditions (values : List Variable) : List Addition :=
  arithmeticAdditions ++ (jumpAdditions ++ (constantAdditions ++ (cardAdditions values ++
    (bankAdditions ++ primaryAdditions))))

section machine

variable (head cloner fetcher : Entity)

theorem makesGroup_arithmetic :
    MakesGroup (Computer.standard head cloner fetcher).arithmeticGroup arithmeticAdditions :=
  makesGroup_rows ArithmeticScores.declares
    (fun scores => (Computer.standard head cloner fetcher).binaryRows scores
      ++ (Computer.standard head cloner fetcher).unaryRows scores) _ emitsRows_arithmetic
    fitIn_arithmeticRows (by decide) ⟨_, List.mem_cons_self, List.cons_ne_nil _ _⟩
    (by decide : arithmeticSelect.length ≤ 32) fun _ _ _ => emits_arithmeticDispatch

theorem makesGroup_jump :
    MakesGroup (Computer.standard head cloner fetcher).jumpGroup jumpAdditions :=
  makesGroup_rows JumpScores.declares _ _ emitsRows_jump fitIn_jumpRows (by decide)
    ⟨_, List.mem_cons_self, List.cons_ne_nil _ _⟩ (by decide : jumpSelect.length ≤ 32)
    fun _ _ _ => emits_jumpDispatch

theorem makesGroup_constant :
    MakesGroup (Computer.standard head cloner fetcher).constantGroup constantAdditions :=
  makesGroup_rows ConstantScores.declares _ _ emitsRows_constant fitIn_constantRows (by decide)
    ⟨_, List.mem_cons_self, List.cons_ne_nil _ _⟩ (by decide : constantSelect.length ≤ 32)
    fun _ _ _ => emits_constantDispatch

theorem makesGroup_card {values : List Variable} (few : values.length ≤ cardSlots) :
    MakesGroup ((Computer.standard head cloner fetcher).cardGroup (values.map printCard))
      (cardAdditions values) := by
  have fits : ¬ cardSlots < (values.map (printCard (m := Id))).length := by simpa using few
  have steps : cardAdditions values =
      [.ofVars (vectorScores "card_position" Layout.cardGroup)] ++
        ((printRows values).map (fun entry => .ofNumbers (entry.2.flatMap Stage.constants)) ++
          ([] ++ ([.ofNumbers (if values = [] then [64] else [64, 64, 16])] ++ []))) := by
    simp [cardAdditions, groupAdditions]
  unfold Computer.cardGroup
  simp only [fits, if_false]
  rw [steps]
  cases values with
  | nil =>
    have emitted : Emits ((Computer.standard head cloner fetcher).cardDispatch
        (standardVector "card_position") none) () cardArgumentSelect [64] := emits_cardDispatch_none
    have noRows : EmitsRows (.standard head cloner fetcher) [] (printRows []) := .nil
    refine ⟨_, .bind (.of_declaresInit (Vector3.declares _ _)) <| .bind (builds_tableGroup noRows) <|
      .bind (.pure none) <| .bind (.captureChain emitted _ _) (.pure _), ?_, _, rfl,
      List.cons_ne_nil _ _⟩
    exact compact_prepend (fitIn_printRows []) (Nat.zero_le _) rfl (by decide)
  | cons value values =>
    have few' : (printRows (value :: values)).length ≤ 63 := by
      simp only [printRows, List.length_map]
      exact few.trans (by decide)
    obtain ⟨window, chain, covered, captured, starts, compact⟩ :=
      exists_dispatch head cloner fetcher (fitIn_printRows _) few'
        ⟨_, List.mem_cons_self, List.cons_ne_nil _ _⟩ (by decide : cardSelect.length ≤ 32)
        (fun _ _ _ => emits_cardDispatch) "card" "card/dispatch"
    refine ⟨_, .bind (.of_declaresInit (Vector3.declares _ _)) <|
      .bind (builds_tableGroup (emitsRows_print _)) <| .bind (a := some window) ?_ <|
      .bind captured (.pure _), compact, chain, rfl, starts⟩
    rw [map_eq_pure_bind]
    exact .bind (.lift covered) (.pure _)

theorem exists_builds_bank : ∃ g, Builds (Bank.group .standard) g bankAdditions ∧ Compact g := by
  let row (name : String) (kind : BankAccess) : String × List Command × List Int32 :=
    (name, kind.registers.map kind.command, [])
  let entries := [row "load_gpr" .loadGeneral, row "store_gpr" .storeGeneral,
    row "load_scratch" .loadScratch, row "store_scratch" .storeScratch]
  have emits : List.Forall₂ (fun row entry => row.1 = entry.1 ∧ Emits row.2 () entry.2.1 entry.2.2)
      (Bank.rows .standard) entries :=
    .cons ⟨rfl, .forM_single (fun v => .assign _ v) _⟩ <|
    .cons ⟨rfl, .forM_single (fun v => .assign v _) _⟩ <|
    .cons ⟨rfl, .forM_single (fun v => .assign _ v) _⟩ <|
    .cons ⟨rfl, .forM_single (fun v => .assign v _) _⟩ .nil
  refine ⟨_, .addRows emits { label := "registers", onlyChain := true }, ?_, ?_⟩
  · simp only [entries, row, List.map_cons, List.map_nil, List.nil_append, List.forall_mem_cons]
    exact ⟨⟨rfl, by decide⟩, ⟨rfl, by decide⟩, ⟨rfl, by decide⟩, ⟨rfl, by decide⟩,
      List.forall_mem_nil _⟩
  · exact Nat.le_of_ble_eq_true rfl

structure IsShortPrimary (chain : Chain) : Prop where
  onlyChain : chain.onlyChain = false
  starts : chain.commands ≠ []
  short : chain.length ≤ 256

theorem exists_builds_primary (groups : List ChainGroup)
    (short : ∀ chain ∈ groups.filterMap (·.chains.head?), chain.length ≤ 128)
    (used : ∃ chain ∈ groups.filterMap (·.chains.head?), chain.commands ≠ []) :
    ∃ chain, Builds ((Computer.standard head cloner fetcher).primaryChain groups) chain
      primaryAdditions ∧ IsShortPrimary chain := by
  obtain ⟨window, covered, bound⟩ := Window.covering_short "dispatch" short used
  have relocated := Emits.executeAt ⟨cloner⟩ (standardVector "dispatch_position")
    (bound.trans (by decide))
  have emitted : Emits ((Computer.standard head cloner fetcher).cycle
    (standardVector "dispatch_position") window) () _ _ := emits_cycle relocated
  have captured := Builds.captureChain emitted "main/primary" false
  refine ⟨_, .bind (.lift covered) <| .bind (.of_declaresInit (Vector3.declares _ _)) captured, rfl,
    List.cons_ne_nil _ _, ?_⟩
  have fetched : (fetch head).length = 19 := rfl
  have decoded : decode.length ≤ 4 := by decide
  have advanced : advance.length = 2 := rfl
  simp only [Chain.length, List.length_append, fetched, advanced, Piece.items]
  simp [Item.commands]
  omega

end machine

namespace Parts

def hardware (computer : Computer) (cards : List (Card Id)) : EmitM Parts := do
  let arithmetic ← computer.arithmeticGroup
  let jump ← computer.jumpGroup
  let constant ← computer.constantGroup
  let card ← computer.cardGroup cards
  let bank ← Bank.group computer.registers
  let primary ← computer.primaryChain [arithmetic, jump, constant, card]
  return { computer, arithmetic, jump, constant, card, bank, primary, init := [] }

theorem make_eq (cards : List (Card Id)) (program : List UInt16) :
    make cards program = (do
      let computer ← Computer.create
      Memory.preload program
      let p ← hardware computer cards
      return { p with init := (← get).init }) := by
  simp only [make, hardware, bind_assoc, pure_bind]

structure IsCompact (p : Parts) : Prop where
  groups : ∀ g ∈ [p.arithmetic, p.jump, p.constant, p.card, p.bank], Compact g
  primary : IsShortPrimary p.primary

/-- With print cards the hardware is made in every session whose names are free, and it is the same. -/
theorem exists_builds_hardware (head cloner fetcher : Entity) {values : List Variable}
    (few : values.length ≤ cardSlots) :
    ∃ p : Parts, Builds (hardware (.standard head cloner fetcher) (values.map printCard)) p
      (hardwareAdditions values) ∧ p.computer = .standard head cloner fetcher ∧ p.IsCompact := by
  obtain ⟨arithmetic, arithmeticBuilds, arithmeticCompact, first, heads, starts⟩ :=
    makesGroup_arithmetic head cloner fetcher
  obtain ⟨jump, jumpBuilds, jumpCompact, -⟩ := makesGroup_jump head cloner fetcher
  obtain ⟨constant, constantBuilds, constantCompact, -⟩ := makesGroup_constant head cloner fetcher
  obtain ⟨card, cardBuilds, cardCompact, -⟩ := makesGroup_card head cloner fetcher few
  obtain ⟨bank, bankBuilds, bankCompact⟩ := exists_builds_bank
  have groups : ∀ g ∈ [arithmetic, jump, constant, card], Compact g := by
    simp only [List.forall_mem_cons]
    exact ⟨arithmeticCompact, jumpCompact, constantCompact, cardCompact, List.forall_mem_nil _⟩
  obtain ⟨primary, primaryBuilds, isPrimary⟩ :=
    exists_builds_primary head cloner fetcher [arithmetic, jump, constant, card]
      (fun chain mem => by
        obtain ⟨g, inGroups, first⟩ := List.mem_filterMap.1 mem
        exact ((groups g inGroups).chains chain (List.mem_of_mem_head? first)).2)
      ⟨first, List.mem_filterMap.2 ⟨arithmetic, List.mem_cons_self, heads⟩, starts⟩
  refine ⟨⟨.standard head cloner fetcher, arithmetic, jump, constant, card, bank, primary, []⟩, ?_, rfl,
    ?_, isPrimary⟩
  · have steps : hardwareAdditions values = arithmeticAdditions ++ (jumpAdditions ++
        (constantAdditions ++ (cardAdditions values ++ (bankAdditions ++ (primaryAdditions ++ []))))) := by
      simp [hardwareAdditions]
    rw [steps]
    exact arithmeticBuilds.bind <| jumpBuilds.bind <| constantBuilds.bind <| cardBuilds.bind <|
      bankBuilds.bind <| primaryBuilds.bind <| .pure _
  · rw [show [arithmetic, jump, constant, card, bank] = [arithmetic, jump, constant, card] ++ [bank]
      from rfl, List.forall_mem_append]
    exact ⟨groups, List.forall_mem_singleton.2 bankCompact⟩

end Parts

end Machine

end BlockComputer
