import BlockComputer.Proofs.Machine.Stage

/-!
Rows as lists of stages: what emits them, and what the stages that rows share do to a state.

Rows pass their operands through variables that nothing else reads, so the effect of a row is told up to
the scores of these.
-/

namespace BlockComputer

namespace Machine

namespace Deed

def constants : Deed → List Int32
  | .operate _ op source => Variable.operateConstants op source
  | .memory access => access.constants
  | .announce _ => []

end Deed

namespace Stage

def constants : Stage → List Int32
  | .always d | .guarded _ d => d.constants
  | .transfer .. => []

theorem fitsIn (c : Computer) (stage : Stage) : ∀ item ∈ stage.items c, item.FitsIn 1 := by
  have plain (cs : List Command) : ∀ item ∈ cs.map Item.unit, item.FitsIn 1 := by
    intro item mem
    obtain ⟨_, -, rfl⟩ := List.mem_map.1 mem
    trivial
  cases stage with
  | always d => exact plain _
  | guarded t d => exact plain _
  | transfer kind index =>
    simp only [items, Bank.accessItems, List.forall_mem_cons]
    exact ⟨trivial, trivial, Nat.le_refl 1, List.forall_mem_nil _⟩

end Stage

/-- The step returns `a` and emits the units of the stages. -/
structure EmitsStages (c : Computer) {α : Type} (x : EmitM α) (a : α) (stages : List Stage) :
    Prop where
  emits : Emits x a (units (stages.flatMap (Stage.items c))) (stages.flatMap Stage.constants)

namespace EmitsStages

variable {α β : Type} {head cloner fetcher : Entity}

theorem pure {c : Computer} (a : α) : EmitsStages c (Pure.pure a) a [] :=
  ⟨.pure a⟩

theorem bind {c : Computer} {x : EmitM α} {f : α → EmitM β} {a : α} {b : β}
    {left right : List Stage} (first : EmitsStages c x a left) (second : EmitsStages c (f a) b right) :
    EmitsStages c (x >>= f) b (left ++ right) := by
  have emitted := first.emits.bind second.emits
  refine ⟨?_⟩
  rwa [List.flatMap_append, List.flatMap_append, units_append]

theorem seq {c : Computer} {x : EmitM α} {y : EmitM β} {a : α} {b : β} {left right : List Stage}
    (first : EmitsStages c x a left) (second : EmitsStages c y b right) :
    EmitsStages c (x >>= fun _ => y) b (left ++ right) :=
  first.bind second

theorem of_deed {c : Computer} {x : EmitM Unit} {d : Deed}
    (emits : Emits x () (d.commands c.memory.head) d.constants) :
    EmitsStages c x () [.always d] := by
  refine ⟨?_⟩
  simpa [Stage.items, Stage.constants] using emits

theorem operate {c : Computer} (v : Variable) {op : ScoreOp} {source : Source} (ne : op ≠ .swap)
    (small : source.isSmall) :
    EmitsStages c (v.operate op source) () [.always (.operate v op source)] :=
  of_deed (Emits.operate v ne small)

theorem memory (access : Memory.Access) :
    EmitsStages (.standard head cloner fetcher) (access.emit (.standard head)) ()
      [.always (.memory access)] :=
  of_deed (access.emits head)

theorem announce {c : Computer} (v : Variable) :
    EmitsStages c (emit (.tellScore v)) () [.always (.announce v)] :=
  of_deed (Emits.emit _)

theorem transfer {c : Computer} (kind : BankAccess) (index : Variable) :
    EmitsStages c (c.bank.access kind index) () [.transfer kind index] := by
  refine ⟨?_⟩
  simpa [Stage.items, Stage.constants] using c.bank.emits_access kind index

section blocks

variable {c : Computer} {x : EmitM Unit}

theorem units_always (c : Computer) (deeds : List Deed) :
    units ((deeds.map .always).flatMap (Stage.items c)) =
      deeds.flatMap (Deed.commands c.memory.head) := by
  induction deeds with
  | nil => rfl
  | cons d deeds ih =>
    rw [List.map_cons, List.flatMap_cons, units_append, ih, List.flatMap_cons, Stage.items,
      units_map_unit]

theorem units_guarded (c : Computer) (t : Test) (deeds : List Deed) :
    units ((deeds.map (.guarded t)).flatMap (Stage.items c)) =
      (deeds.flatMap (Deed.commands c.memory.head)).map (Command.guarded [t.branch.guard]) := by
  induction deeds with
  | nil => rfl
  | cons d deeds ih =>
    rw [List.map_cons, List.flatMap_cons, units_append, ih, List.flatMap_cons, List.map_append,
      Stage.items, units_map_unit]

theorem constants_guarded (t : Test) (deeds : List Deed) :
    (deeds.map (.guarded t)).flatMap Stage.constants =
      (deeds.map .always).flatMap Stage.constants := by
  rw [List.flatMap_map, List.flatMap_map]
  rfl

theorem emitBlock (t : Test) (deeds : List Deed) (body : EmitsStages c x () (deeds.map .always)) :
    EmitsStages c (t.branch.emitBlock x) t.branch (deeds.map (.guarded t)) := by
  have emitted := body.emits
  rw [units_always] at emitted
  refine ⟨?_⟩
  rw [units_guarded, constants_guarded]
  exact emitted.emitBlock t.branch

theorem orElse (t : Test) (deeds : List Deed) (body : EmitsStages c x () (deeds.map .always)) :
    EmitsStages c (t.branch.orElse x) () (deeds.map (.guarded t.opposite)) := by
  have emitted := body.emits
  rw [units_always] at emitted
  refine ⟨?_⟩
  rw [units_guarded, constants_guarded]
  exact emitted.orElse t.branch

end blocks

end EmitsStages

def EmitsRows (c : Computer) (rows : List (String × EmitM Unit))
    (table : List (String × List Stage)) : Prop :=
  List.Forall₂ (fun row entry => row.1 = entry.1 ∧ EmitsStages c row.2 () entry.2) rows table

theorem exists_of_forall₂ {α β : Type} {R : α → β → Prop} {as : List α} {bs : List β}
    (h : List.Forall₂ R as bs) {i : Nat} {b : β} (here : bs[i]? = some b) :
    ∃ a, as[i]? = some a ∧ R a b := by
  induction h generalizing i with
  | nil => cases here
  | cons related _ ih =>
    cases i with
    | zero =>
      cases here
      exact ⟨_, rfl, related⟩
    | succ i => exact ih here

def FitIn (bound : Nat) (table : List (String × List Stage)) : Prop :=
  ∀ head cloner fetcher, ∀ entry ∈ table,
    (units (entry.2.flatMap (Stage.items (.standard head cloner fetcher)))).length ≤ bound

def Stage.size (stage : Stage) : Nat :=
  (units (stage.items (.standard ⟨"", ""⟩ ⟨"", ""⟩ ⟨"", ""⟩))).length

theorem Stage.length_units_items (head cloner fetcher : Entity) (stage : Stage) :
    (units (stage.items (.standard head cloner fetcher))).length = stage.size := by
  have deed (d : Deed) (head head' : Entity) : (d.commands head).length = (d.commands head').length := by
    cases d with
    | memory access => cases access <;> rfl
    | operate | announce => rfl
  cases stage with
  | always d =>
    rw [size, items, items, units_map_unit, units_map_unit]
    exact deed d _ _
  | guarded t d =>
    rw [size, items, items, units_map_unit, units_map_unit, List.length_map, List.length_map]
    exact deed d _ _
  | transfer kind index => rfl

theorem fitIn_of_size {bound : Nat} {table : List (String × List Stage)}
    (few : ∀ entry ∈ table, (entry.2.map Stage.size).sum ≤ bound) : FitIn bound table := by
  intro head cloner fetcher entry mem
  have sizes : (fun stage => (units (Stage.items (.standard head cloner fetcher) stage)).length) =
      Stage.size := funext (Stage.length_units_items head cloner fetcher)
  rw [units, List.flatMap_assoc, List.length_flatMap]
  exact (congrArg (fun f => (entry.2.map f).sum) sizes).trans_le (few entry mem)

structure IsEntry (c : Computer) (label : String) (entry : String × List Stage) (chain : Chain) :
    Prop where
  label_eq : chain.label = rowLabel label entry.1
  onlyChain_eq : chain.onlyChain = true
  commands : chain.commands = units (entry.2.flatMap (Stage.items c))

theorem forall₂_isEntry {c : Computer} {label : String} {rows : List (String × EmitM Unit)}
    {table : List (String × List Stage)} (emits : EmitsRows c rows table) {chains : List Chain}
    (areRows : List.Forall₂ (Chain.IsRow label true) rows chains) :
    List.Forall₂ (IsEntry c label) table chains := by
  induction emits generalizing chains with
  | nil =>
    cases areRows
    exact .nil
  | cons entry _ ih =>
    cases areRows with
    | cons isRow others =>
      refine .cons ⟨entry.1 ▸ isRow.label_eq, isRow.onlyChain_eq, ?_⟩ (ih others)
      exact entry.2.emits.of_capturedFrom isRow.commands

/-- The rows behind a group's dispatch chain are those of a table, and the window covers them. -/
structure Ground.Lists (G : Ground) (number : Nat) (table : List (String × List Stage))
    (window : Window) : Prop where
  few : number < 4
  chains : List.Forall₂ (IsEntry G.parts.computer (groupLabel number)) table
    (G.parts.group number).chains.tail
  covers : window.Covers (G.parts.group number).chains.tail
  safe : ∀ entry ∈ table, ∀ stage ∈ entry.2, stage.IsSafe

theorem Ground.exists_lists (G : Ground) (number : Nat) (few : number < 4)
    {dispatch : Window → EmitM Unit} {rows : List (String × EmitM Unit)}
    (h : Dispatches (groupLabel number) dispatch rows (G.parts.group number))
    {table : List (String × List Stage)} (emits : EmitsRows G.parts.computer rows table)
    (safe : ∀ entry ∈ table, ∀ stage ∈ entry.2, stage.IsSafe) :
    ∃ window chain, G.Lists number table window ∧
      (G.parts.group number).chains[0]? = some chain ∧ chain.onlyChain = true ∧
      CapturedFrom (dispatch window) chain.commands := by
  obtain ⟨window, hasRows, covers⟩ := h
  obtain ⟨chain, first, isRow⟩ := hasRows.row (i := 0) rfl
  refine ⟨window, chain, ⟨few, ?_, covers, safe⟩, first, isRow.onlyChain_eq, isRow.commands⟩
  have areRows := hasRows.chains
  generalize (G.parts.group number).chains = chains at areRows
  cases areRows with
  | cons _ others => exact forall₂_isEntry emits others

theorem Ground.Lists.length_le {G : Ground} {number : Nat} {table : List (String × List Stage)}
    {window : Window} (h : G.Lists number table window) {bound : Nat} (short : FitIn bound table) :
    window.length ≤ bound := by
  refine h.covers.le_of_forall fun chain mem => ?_
  obtain ⟨i, placed⟩ := List.mem_iff_getElem?.1 mem
  obtain ⟨entry, inTable, isEntry⟩ := exists_of_forall₂ h.chains placed
  rw [Chain.length, isEntry.commands, G.computer_eq]
  exact short _ _ _ entry (List.mem_of_getElem? inTable)

theorem Ground.Lists.exists_chain {G : Ground} {number : Nat} {table : List (String × List Stage)}
    {window : Window} (h : G.Lists number table window) {i : Nat} {entry : String × List Stage}
    (here : table[i]? = some entry) :
    ∃ chain, G.parts.HasChain G.listing chain ⟨0, number + 1, (i + 1 : Nat)⟩ ∧
      IsEntry G.parts.computer (groupLabel number) entry chain ∧ chain.length ≤ window.length := by
  obtain ⟨chain, placed, isEntry⟩ := exists_of_forall₂ h.chains.flip here
  refine ⟨chain, G.laidOut.hasChain number h.few ?_, isEntry,
    h.covers.length_le (List.mem_of_getElem? placed)⟩
  rwa [List.getElem?_tail] at placed

def readStages (kind : BankAccess) (index target : Variable) : List Stage :=
  [.transfer kind index, .always (.operate target .set (.variable ⟨"reg_src"⟩))]

def writeStages (kind : BankAccess) (index source : Variable) : List Stage :=
  [.always (.operate ⟨"reg_dst"⟩ .set (.variable source)), .transfer kind index]

def flagStages (t : Test) (flag : Variable) : List Stage :=
  [.guarded t (.operate flag .set (.literal 1)), .guarded t.opposite (.operate flag .set (.literal 0))]

def compareStages (left : Variable) (right : Source) : List Stage :=
  flagStages ⟨left, .lt, right, false⟩ ⟨"LF"⟩ ++ (flagStages ⟨left, .le, right, false⟩ ⟨"LE"⟩
    ++ (flagStages ⟨left, .ge, right, false⟩ ⟨"GE"⟩ ++ (flagStages ⟨left, .gt, right, false⟩ ⟨"GT"⟩
    ++ ([Deed.operate ⟨"EQ"⟩ .set (.literal 1), Deed.operate ⟨"NE"⟩ .set (.literal 0)].map
        (.guarded ⟨left, .eq, right, false⟩)
      ++ [Deed.operate ⟨"EQ"⟩ .set (.literal 0), Deed.operate ⟨"NE"⟩ .set (.literal 1)].map
        (.guarded ⟨left, .eq, right, true⟩)))))

section emission

variable {head cloner fetcher : Entity} (index v : Variable)

theorem emitsStages_getGeneral : EmitsStages (.standard head cloner fetcher)
    ((Computer.standard head cloner fetcher).getGeneral index v) ()
    (readStages .loadGeneral index v) :=
  (EmitsStages.transfer _ _).seq (.operate _ (by decide) rfl)

theorem emitsStages_setGeneral : EmitsStages (.standard head cloner fetcher)
    ((Computer.standard head cloner fetcher).setGeneral index v) ()
    (writeStages .storeGeneral index v) :=
  (EmitsStages.operate _ (by decide) rfl).seq (.transfer _ _)

theorem emitsStages_getScratch : EmitsStages (.standard head cloner fetcher)
    ((Computer.standard head cloner fetcher).getScratch index v) ()
    (readStages .loadScratch index v) :=
  (EmitsStages.transfer _ _).seq (.operate _ (by decide) rfl)

theorem emitsStages_setScratch : EmitsStages (.standard head cloner fetcher)
    ((Computer.standard head cloner fetcher).setScratch index v) ()
    (writeStages .storeScratch index v) :=
  (EmitsStages.operate _ (by decide) rfl).seq (.transfer _ _)

theorem emitsStages_compare {c : Computer} (left : Variable) (right : Source) :
    EmitsStages c (compare Registers.standard.flags left right) () (compareStages left right) := by
  have set (flag : Variable) (n : Int32) :
      EmitsStages c (flag.setTo n) () [.always (.operate flag .set (.literal n))] :=
    .of_deed (Emits.setTo flag n)
  have flag (v : Variable) (t : Test) : EmitsStages c
      (t.branch.emitBlock (v.setTo 1) >>= fun branch => branch.orElse (v.setTo 0)) ()
      (flagStages t v) :=
    (EmitsStages.emitBlock t [_] (set v 1)).bind
      (EmitsStages.orElse t [_] (set v 0))
  have equal := (EmitsStages.emitBlock ⟨left, .eq, right, false⟩ [_, _]
    ((set ⟨"EQ"⟩ 1).seq (set ⟨"NE"⟩ 0))).bind (f := fun branch => branch.orElse do
      Variable.setTo ⟨"EQ"⟩ 0
      Variable.setTo ⟨"NE"⟩ 1)
    (EmitsStages.orElse ⟨left, .eq, right, false⟩ [_, _] ((set ⟨"EQ"⟩ 0).seq (set ⟨"NE"⟩ 1)))
  exact (flag ⟨"LF"⟩ ⟨left, .lt, right, false⟩).seq <|
    (flag ⟨"LE"⟩ ⟨left, .le, right, false⟩).seq <|
    (flag ⟨"GE"⟩ ⟨left, .ge, right, false⟩).seq <|
    (flag ⟨"GT"⟩ ⟨left, .gt, right, false⟩).seq equal

end emission

def generalRegister (i : Fin 8) : Variable :=
  Registers.standard.general.get (i.cast rfl)

def scratchRegister (i : Fin 8) : Variable :=
  Registers.standard.scratch.get (i.cast rfl)

theorem generalRegister_ne {v : Variable} (other : v ∉ Registers.standard.general) (i : Fin 8) :
    generalRegister i ≠ v := by
  rintro rfl
  exact other (List.get_mem _ _)

namespace BankAccess

def register : BankAccess → Fin 8 → Variable
  | .loadGeneral, i | .storeGeneral, i => generalRegister i
  | .loadScratch, i | .storeScratch, i => scratchRegister i

theorem register?_ofNat (kind : BankAccess) (i : Fin 8) :
    kind.register? (Int32.ofNat i) = some (kind.register i) := by
  revert i
  cases kind <;> decide

def isLoad : BankAccess → Bool
  | .loadGeneral | .loadScratch => true
  | _ => false

end BankAccess

namespace State

/-- The states have the same words, and the same scores but for some. -/
structure SameBut (vs : List Variable) (s t : State) : Prop where
  cells : t.cells = s.cells
  scores : ∀ v ∉ vs, t.scores v = s.scores v

variable {vs us : List Variable} {s t u : State}

theorem scores_setScore (s : State) (v : Variable) (n : Int32) (u : Variable) :
    (s.setScore v n).scores u = if u = v then n else s.scores u := by
  by_cases same : u = v
  · rw [same, scores_setScore_self, if_pos rfl]
  · rw [scores_setScore_of_ne _ same, if_neg same]

namespace SameBut

theorem refl (vs : List Variable) (s : State) : s.SameBut vs s :=
  ⟨rfl, fun _ _ => rfl⟩

theorem trans (h : s.SameBut vs t) (h' : t.SameBut vs u) : s.SameBut vs u :=
  ⟨h'.cells.trans h.cells, fun v mem => (h'.scores v mem).trans (h.scores v mem)⟩

theorem mono (h : s.SameBut us t) (subset : us ⊆ vs) : s.SameBut vs t :=
  ⟨h.cells, fun v mem => h.scores v fun inside => mem (subset inside)⟩

theorem setScore (h : s.SameBut vs t) (v : Variable) (n : Int32) :
    (s.setScore v n).SameBut vs (t.setScore v n) where
  cells := h.cells
  scores u mem := by rw [scores_setScore, scores_setScore, h.scores u mem]

theorem setOne (h : s.SameBut vs t) {v : Variable} (mem : v ∈ vs) (n : Int32) :
    s.SameBut vs (t.setScore v n) where
  cells := h.cells
  scores u outside := by
    have ne : u ≠ v := fun same => outside (same ▸ mem)
    rw [scores_setScore_of_ne _ ne, h.scores u outside]

theorem write (h : s.SameBut vs t) (n value : Int32) :
    (s.write n value).SameBut vs (t.write n value) where
  cells := by
    simp only [State.write, State.setCell, h.cells]
  scores := h.scores

theorem read (h : s.SameBut vs t) (n : Int32) : t.read n = s.read n := by
  rw [State.read, State.read, h.cells]

end SameBut

theorem transfer_ofNat (s : State) (kind : BankAccess) (i : Fin 8) :
    s.transfer kind (Int32.ofNat i) =
      s.setScore (kind.target (kind.register i)) (s.scores (kind.source (kind.register i))) := by
  rw [transfer, kind.register?_ofNat]

end State

section effects

variable {s : State} {kind : BankAccess} {index v : Variable} {i : Fin 8}

theorem effects_operate (v : Variable) (op : ScoreOp) (source : Source) (s : State) :
    effects [.always (.operate v op source)] s =
      s.setScore v (op.apply (s.scores v) (s.value source)) := rfl

theorem effects_memory (a : Memory.Access) (s : State) :
    effects [.always (.memory a)] s = a.effect s := rfl

theorem effects_append (left right : List Stage) (s : State) :
    effects (left ++ right) s = effects right (effects left s) :=
  List.foldl_append

/-- Guarded deeds that spare their guard are all done or not at all. -/
theorem effects_guarded {t : Test} {deeds : List Deed}
    (spared : ∀ d ∈ deeds, ∀ v ∈ t.reads, v ∉ d.touches) (s : State) :
    effects (deeds.map (.guarded t)) s =
      if t.holds s then effects (deeds.map .always) s else s := by
  induction deeds generalizing s with
  | nil => exact (ite_self s).symm
  | cons d deeds ih =>
    have others := ih fun e mem => spared e (List.mem_cons_of_mem d mem)
    have still : t.holds (d.effect s) = t.holds s :=
      Test.holds_congr fun v read => d.scores_effect (spared d List.mem_cons_self v read) s
    by_cases holds : t.holds s
    · have first : (Stage.guarded t d).effect s = d.effect s := if_pos holds
      change effects _ ((Stage.guarded t d).effect s) = _
      rw [first, others, still, if_pos holds, if_pos holds]
      rfl
    · have first : (Stage.guarded t d).effect s = s := if_neg holds
      change effects _ ((Stage.guarded t d).effect s) = _
      rw [first, others, if_neg holds, if_neg holds]

theorem sameBut_read (s : State) (kind : BankAccess) (loads : kind.isLoad) (index target : Variable) :
    s.SameBut [⟨"reg_src"⟩, target] (effects (readStages kind index target) s) := by
  have read : s.SameBut [⟨"reg_src"⟩, target] (s.transfer kind (s.scores index)) := by
    unfold State.transfer
    split
    · exact .refl _ s
    · next v _ =>
      have same : kind.target v = ⟨"reg_src"⟩ := by
        cases kind <;> first | rfl | cases loads
      rw [same]
      exact (State.SameBut.refl _ s).setOne List.mem_cons_self _
  exact read.setOne (by simp) _

theorem scores_read (loads : kind.isLoad) (number : s.scores index = Int32.ofNat i)
    (target : Variable) :
    (effects (readStages kind index target) s).scores target = s.scores (kind.register i) := by
  have read : (s.transfer kind (s.scores index)).scores ⟨"reg_src"⟩ = s.scores (kind.register i) := by
    rw [number, State.transfer_ofNat]
    cases kind with
    | loadGeneral | loadScratch => exact State.scores_setScore_self _ _ _
    | storeGeneral | storeScratch => cases loads
  exact (State.scores_setScore_self _ _ _).trans read

theorem sameBut_write (stores : kind.isLoad = false) (number : s.scores index = Int32.ofNat i)
    (apart : index ≠ ⟨"reg_dst"⟩) (source : Variable) :
    (s.setScore (kind.register i) (s.scores source)).SameBut [⟨"reg_dst"⟩]
      (effects (writeStages kind index source) s) := by
  let held := s.setScore ⟨"reg_dst"⟩ (s.scores source)
  have kept : held.scores index = Int32.ofNat i := by
    rw [State.scores_setScore_of_ne _ apart, number]
  have written : effects (writeStages kind index source) s =
      held.setScore (kind.register i) (s.scores source) := by
    have value : held.scores ⟨"reg_dst"⟩ = s.scores source := State.scores_setScore_self _ _ _
    have moved : held.transfer kind (held.scores index) =
        held.setScore (kind.register i) (held.scores ⟨"reg_dst"⟩) := by
      rw [kept, State.transfer_ofNat]
      cases kind with
      | loadGeneral | loadScratch => cases stores
      | storeGeneral | storeScratch => rfl
    rw [← value]
    exact moved
  rw [written]
  exact ((State.SameBut.refl _ s).setOne List.mem_cons_self _).setScore _ _

end effects

def verdict (holds : Bool) : Int32 :=
  if holds then 1 else 0

def flagVariables : List Variable :=
  [⟨"LF"⟩, ⟨"LE"⟩, ⟨"EQ"⟩, ⟨"NE"⟩, ⟨"GE"⟩, ⟨"GT"⟩]

def State.setFlags (s : State) (a b : Int32) : State :=
  (((((s.setScore ⟨"LF"⟩ (verdict (a < b))).setScore ⟨"LE"⟩ (verdict (a ≤ b))).setScore ⟨"GE"⟩
    (verdict (b ≤ a))).setScore ⟨"GT"⟩ (verdict (b < a))).setScore ⟨"EQ"⟩
    (verdict (a = b))).setScore ⟨"NE"⟩ (verdict (a ≠ b))

section flags

variable {t : Test} {s : State}

theorem Stage.effect_guarded_set (t : Test) (v : Variable) (n : Int32) (s : State) :
    (Stage.guarded t (.operate v .set (.literal n))).effect s =
      if t.holds s then s.setScore v n else s :=
  rfl

theorem effects_flag {flag : Variable} (apart : flag ∉ t.reads) (s : State) :
    effects (flagStages t flag) s = s.setScore flag (verdict (t.holds s)) := by
  have kept (n : Int32) : t.opposite.holds (s.setScore flag n) = !t.holds s := by
    rw [Test.holds_opposite, Test.holds_setScore apart]
  have unchanged : t.opposite.holds s = !t.holds s := Test.holds_opposite t s
  simp only [effects, flagStages, List.foldl_cons, List.foldl_nil, Stage.effect_guarded_set]
  by_cases holds : t.holds s
  · simp [holds, kept, verdict]
  · simp [holds, unchanged, verdict]

/-- The flags of equality are set together, so that the second guard is tested when both are done. -/
theorem effects_equality {t : Test} (eq : ⟨"EQ"⟩ ∉ t.reads) (ne : ⟨"NE"⟩ ∉ t.reads) (s : State) :
    effects ([Deed.operate ⟨"EQ"⟩ .set (.literal 1), Deed.operate ⟨"NE"⟩ .set (.literal 0)].map
        (.guarded t)
      ++ [Deed.operate ⟨"EQ"⟩ .set (.literal 0), Deed.operate ⟨"NE"⟩ .set (.literal 1)].map
        (.guarded t.opposite)) s =
      (s.setScore ⟨"EQ"⟩ (verdict (t.holds s))).setScore ⟨"NE"⟩ (verdict (!t.holds s)) := by
  simp only [effects, List.map_cons, List.map_nil, List.cons_append, List.nil_append,
    List.foldl_cons, List.foldl_nil, Stage.effect_guarded_set]
  by_cases holds : t.holds s
  · simp [holds, Test.holds_opposite, Test.holds_setScore eq, Test.holds_setScore ne, verdict]
  · simp [holds, Test.holds_opposite, Test.holds_setScore eq, verdict]

theorem effects_compare {left : Variable} {right : Source}
    (apart : ∀ v ∈ left :: sourceReads right, v ∉ flagVariables) (s : State) :
    effects (compareStages left right) s = s.setFlags (s.scores left) (s.value right) := by
  have kept (flag : Variable) (mem : flag ∈ flagVariables) (relation : Comparison) (negated : Bool) :
      flag ∉ Test.reads ⟨left, relation, right, negated⟩ :=
    fun read => apart flag read mem
  have holds (relation : Comparison) (u : State) :
      Test.holds ⟨left, relation, right, false⟩ u = relation.holds (u.scores left) (u.value right) :=
    Bool.bne_false _
  have same (flag : Variable) (mem : flag ∈ flagVariables) (u : State) (n : Int32)
      (relation : Comparison) :
      Test.holds ⟨left, relation, right, false⟩ (u.setScore flag n) =
        Test.holds ⟨left, relation, right, false⟩ u :=
    Test.holds_setScore (kept flag mem relation false) u n
  rw [compareStages, effects_append, effects_flag (kept _ (by decide) _ _), effects_append,
    effects_flag (kept _ (by decide) _ _), effects_append, effects_flag (kept _ (by decide) _ _),
    effects_append, effects_flag (kept _ (by decide) _ _),
    show (⟨left, .eq, right, true⟩ : Test) = Test.opposite ⟨left, .eq, right, false⟩ from rfl,
    effects_equality (kept _ (by decide) _ _) (kept _ (by decide) _ _)]
  simp (disch := decide) only [same]
  simp only [holds, Comparison.holds, State.setFlags, decide_not]

end flags

end Machine

end BlockComputer
