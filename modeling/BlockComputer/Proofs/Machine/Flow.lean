import BlockComputer.Proofs.Machine.Cycle

/-!
Where the machine goes from one cycle to the next.

Only the rows of jumps and of returning touch the instruction register or the mark that a jump leaves, and
the end of the cycle reads the mark and takes it away.
-/

namespace BlockComputer

namespace Machine

def rowName? (n : Nat) : Option String :=
  (rowNames (n / 1024))[rowOf n - 1]?

def conditionFlag? : String → Option Variable
  | "lt" => some ⟨"LF"⟩
  | "le" => some ⟨"LE"⟩
  | "eq" => some ⟨"EQ"⟩
  | "ge" => some ⟨"GE"⟩
  | "gt" => some ⟨"GT"⟩
  | "ne" => some ⟨"NE"⟩
  | _ => none

def jumpFlag? (n : Nat) : Option Variable :=
  (rowName? n).bind conditionFlag?

def IsCall (n : Nat) : Prop :=
  n / 1024 = 1 ∧ rowName? n = some "call"

def IsReturn (n : Nat) : Prop :=
  n / 1024 = 0 ∧ rowName? n = some "ret" ∧ n % 8 = 0

instance (n : Nat) : Decidable (IsCall n) :=
  inferInstanceAs (Decidable (_ ∧ _))

instance (n : Nat) : Decidable (IsReturn n) :=
  inferInstanceAs (Decidable (_ ∧ _ ∧ _))

def State.Takes (s : State) (n : Nat) : Prop :=
  ∀ flag ∈ jumpFlag? n, 0 < s.scores flag

instance (s : State) (n : Nat) : Decidable (s.Takes n) :=
  inferInstanceAs (Decidable (∀ flag ∈ jumpFlag? n, 0 < s.scores flag))

def decoded : List Variable :=
  [⟨"opcode"⟩, ⟨"dispatch_position_y"⟩, ⟨"arith_src"⟩, ⟨"arith_dst"⟩, ⟨"arith_target_z"⟩,
    ⟨"jump_offset"⟩, ⟨"jump_target"⟩, ⟨"jump_position_z"⟩, ⟨"const_imm"⟩, ⟨"const_position_z"⟩,
    ⟨"card_arg"⟩, ⟨"card_position_z"⟩]

namespace State

variable {s t : State} {values : List Variable}

theorem sameBut_select (values : List Variable) (number n : Nat) (s : State) :
    s.SameBut decoded (selectState values number n s) := by
  have arithmetic : s.SameBut decoded (selectArithmetic n s) :=
    (((SameBut.refl decoded s).setOne (by decide) _).setOne (by decide) _).setOne (by decide) _
  have jump : s.SameBut decoded (selectJump n s) := by
    refine SameBut.setOne (SameBut.setOne ?_ (by decide) _) (by decide) _
    split
    · exact (SameBut.refl decoded s).setOne (by decide) _
    · exact .refl decoded s
  have constant : s.SameBut decoded (selectConstant n s) :=
    ((SameBut.refl decoded s).setOne (by decide) _).setOne (by decide) _
  have argument : s.SameBut decoded (selectCardArgument n s) :=
    (SameBut.refl decoded s).setOne (by decide) _
  unfold selectState
  split
  · exact arithmetic
  · exact jump
  · exact constant
  · split
    · exact argument
    · exact argument.setOne (by decide) _

def selected (values : List Variable) (s : State) : State :=
  selectState values (s.word / 1024) s.word (s.fetch.decode s.word)

theorem sameBut_selected (values : List Variable) (s : State) : s.SameBut decoded (s.selected values) :=
  (((SameBut.refl decoded s).setOne (by decide) _).setOne (by decide) _).trans
    (sameBut_select values _ _ _)

theorem next_eq (values : List Variable) (s : State) :
    s.next values = effects advanceStages
      (effects (stagesAt (groupRows values (s.word / 1024)) (rowOf s.word - 1)) (s.selected values)) :=
  rfl

theorem effects_advance (s : State) :
    effects advanceStages s =
      if s.scores ⟨"jumped"⟩ = 0 then s.setScore ⟨"ip"⟩ (s.scores ⟨"ip"⟩ + 1)
      else s.setScore ⟨"jumped"⟩ 0 := by
  have first (u : State) : (Test.holds ⟨⟨"jumped"⟩, .eq, .literal 0, false⟩ u) =
      decide (u.scores ⟨"jumped"⟩ = 0) := Bool.bne_false _
  have second (u : State) : (Test.holds ⟨⟨"jumped"⟩, .eq, .literal 0, true⟩ u) =
      !decide (u.scores ⟨"jumped"⟩ = 0) := Bool.bne_true _
  simp only [effects, advanceStages, List.foldl_cons, List.foldl_nil, Stage.effect, first, second,
    Deed.effect, ScoreOp.apply, State.value]
  by_cases zero : s.scores ⟨"jumped"⟩ = 0
  · have still : (s.setScore ⟨"ip"⟩ (s.scores ⟨"ip"⟩ + 1)).scores ⟨"jumped"⟩ = 0 :=
      (scores_setScore_of_ne _ (by decide) _).trans zero
    simp [zero, still]
  · simp [zero]

theorem scores_advance_jumped (s : State) : (effects advanceStages s).scores ⟨"jumped"⟩ = 0 := by
  rw [effects_advance]
  split
  · next zero => exact (scores_setScore_of_ne _ (by decide) _).trans zero
  · exact scores_setScore_self _ _ _

def leap (s : State) : State :=
  (s.setScore ⟨"ip"⟩ (s.scores ⟨"jump_target"⟩)).setScore ⟨"jumped"⟩ 1

theorem effects_jump (s : State) : effects (jumpDeeds.map .always) s = s.leap := rfl

theorem effects_jumpIf {flag : Variable} (isFlag : flag ∈ flagVariables) (s : State) :
    effects (jumpIfStages flag) s = if 0 < s.scores flag then s.leap else s := by
  have spared : ∀ flag ∈ flagVariables, ∀ d ∈ jumpDeeds,
      ∀ v ∈ Test.reads ⟨flag, .gt, .literal 0, false⟩, v ∉ d.touches := by decide
  have holds : Test.holds ⟨flag, .gt, .literal 0, false⟩ s = decide (0 < s.scores flag) :=
    Bool.bne_false _
  rw [jumpIfStages, effects_guarded (spared flag isFlag), holds, effects_jump]
  simp only [decide_eq_true_eq]

theorem effects_call (s : State) :
    effects callStages s =
      ((s.setScore ⟨"return_address"⟩ (s.scores ⟨"ip"⟩ + 1)).push (s.scores ⟨"ip"⟩ + 1)).leap := by
  have address : (((s.setScore ⟨"return_address"⟩ (s.scores ⟨"ip"⟩)).setScore ⟨"return_address"⟩
      (s.scores ⟨"ip"⟩ + 1))) = s.setScore ⟨"return_address"⟩ (s.scores ⟨"ip"⟩ + 1) := by
    simp only [setScore, Function.update_idem]
  rw [callStages, effects_append, effects_jump]
  congr 1
  simp only [effects, List.map_cons, List.map_nil, List.foldl_cons, List.foldl_nil, Stage.effect,
    Deed.effect, ScoreOp.apply, State.value, scores_setScore_self, Memory.Access.effect, address, push]

def jumpWorkspace : List Variable :=
  decoded ++ [⟨"return_address"⟩, ⟨"jumped"⟩]

def jump (s : State) (n : Nat) : State :=
  let target := jumpTarget n (s.scores ⟨"ip"⟩) (s.scores ⟨"cr"⟩)
  if IsCall n then (s.push (s.scores ⟨"ip"⟩ + 1)).setScore ⟨"ip"⟩ target
  else s.setScore ⟨"ip"⟩ (if s.Takes n then target else s.scores ⟨"ip"⟩ + 1)

end State

theorem stagesAt_jumpRows {n : Nat} (group : n / 1024 = 1) :
    IsCall n ∧ stagesAt jumpRows (rowOf n - 1) = callStages ∨
      ¬ IsCall n ∧ jumpFlag? n = none ∧
        stagesAt jumpRows (rowOf n - 1) = jumpDeeds.map .always ∨
      ∃ flag ∈ flagVariables, ¬ IsCall n ∧ jumpFlag? n = some flag ∧
        stagesAt jumpRows (rowOf n - 1) = jumpIfStages flag := by
  have few : rowOf n - 1 < 8 := by
    simp only [rowOf, group]
    split <;> omega
  have name : rowName? n = (rowNames 1)[rowOf n - 1]? := by rw [rowName?, group]
  unfold IsCall jumpFlag?
  rw [name, group]
  generalize rowOf n - 1 = i at few
  obtain rfl | rfl | rfl | rfl | rfl | rfl | rfl | rfl :
      i = 0 ∨ i = 1 ∨ i = 2 ∨ i = 3 ∨ i = 4 ∨ i = 5 ∨ i = 6 ∨ i = 7 := by omega
  · exact .inr (.inr ⟨⟨"LF"⟩, by decide, by decide, rfl, rfl⟩)
  · exact .inr (.inr ⟨⟨"LE"⟩, by decide, by decide, rfl, rfl⟩)
  · exact .inr (.inr ⟨⟨"EQ"⟩, by decide, by decide, rfl, rfl⟩)
  · exact .inr (.inr ⟨⟨"GE"⟩, by decide, by decide, rfl, rfl⟩)
  · exact .inr (.inr ⟨⟨"GT"⟩, by decide, by decide, rfl, rfl⟩)
  · exact .inr (.inr ⟨⟨"NE"⟩, by decide, by decide, rfl, rfl⟩)
  · exact .inr (.inl ⟨by decide, rfl, rfl⟩)
  · exact .inl ⟨⟨rfl, rfl⟩, rfl⟩

namespace State

variable {s t : State} {values : List Variable}

/-- A jump that goes leaves the mark, and the end of the cycle takes it away. -/
theorem SameBut.leap (same : s.SameBut jumpWorkspace t) :
    (s.setScore ⟨"ip"⟩ (t.scores ⟨"jump_target"⟩)).SameBut jumpWorkspace
      (effects advanceStages t.leap) := by
  have marked : t.leap.scores ⟨"jumped"⟩ = 1 := scores_setScore_self _ _ _
  have away : effects advanceStages t.leap = t.leap.setScore ⟨"jumped"⟩ 0 := by
    rw [effects_advance, marked, if_neg (by decide)]
  rw [away]
  exact ((same.setScore _ _).setOne (by decide) _).setOne (by decide) _

theorem SameBut.push {vs : List Variable} (same : s.SameBut vs t) (outside : ⟨"sp"⟩ ∉ vs) (n : Int32) :
    (s.push n).SameBut vs (t.push n) := by
  rw [State.push, State.push, same.scores _ outside]
  exact (same.write _ _).setScore _ _

theorem scores_selected_target (values : List Variable) (group : s.word / 1024 = 1) :
    (s.selected values).scores ⟨"jump_target"⟩ =
      jumpTarget s.word (s.scores ⟨"ip"⟩) (s.scores ⟨"cr"⟩) := by
  have kept : s.SameBut decoded (s.fetch.decode s.word) :=
    ((SameBut.refl decoded s).setOne (by decide) _).setOne (by decide) _
  have ip := kept.scores ⟨"ip"⟩ (by decide)
  have cr := kept.scores ⟨"cr"⟩ (by decide)
  have target : (selectJump s.word (s.fetch.decode s.word)).scores ⟨"jump_target"⟩ =
      jumpTarget s.word ((s.fetch.decode s.word).scores ⟨"ip"⟩)
        ((s.fetch.decode s.word).scores ⟨"cr"⟩) := by
    rw [selectJump, scores_setScore_of_ne _ (by decide), scores_setScore_self]
  rw [selected, group, ← ip, ← cr]
  exact target

theorem next_jump (values : List Variable) (group : s.word / 1024 = 1) (still : s.scores ⟨"jumped"⟩ = 0) :
    (s.jump s.word).SameBut jumpWorkspace (s.next values) := by
  have decodes := s.sameBut_selected values
  have same : s.SameBut jumpWorkspace (s.selected values) := decodes.mono (by decide)
  have target := scores_selected_target values group
  have ip := decodes.scores ⟨"ip"⟩ (by decide)
  rw [next_eq, group]
  change (s.jump s.word).SameBut jumpWorkspace
    (effects advanceStages (effects (stagesAt jumpRows (rowOf s.word - 1)) (s.selected values)))
  rw [jump, ← target]
  generalize s.selected values = u at *
  rcases stagesAt_jumpRows group with ⟨calls, row⟩ | ⟨plain, free, row⟩ | ⟨flag, isFlag, plain, reads, row⟩
  · have pushed := (same.setOne (v := ⟨"return_address"⟩) (by decide) (u.scores ⟨"ip"⟩ + 1)).push
      (by decide) (u.scores ⟨"ip"⟩ + 1)
    have kept : ((u.setScore ⟨"return_address"⟩ (u.scores ⟨"ip"⟩ + 1)).push
        (u.scores ⟨"ip"⟩ + 1)).scores ⟨"jump_target"⟩ = u.scores ⟨"jump_target"⟩ := by
      rw [push, scores_setScore_of_ne _ (by decide), scores_write, scores_setScore_of_ne _ (by decide)]
    have gone := pushed.leap
    rw [kept] at gone
    rw [row, effects_call, if_pos calls, ← ip]
    exact gone
  · have takes : s.Takes s.word := fun flag mem => by
      rw [free] at mem
      cases mem
    rw [row, effects_jump, if_neg plain, if_pos takes]
    exact same.leap
  · have apart : ∀ flag ∈ flagVariables, flag ∉ decoded := by decide
    have takes : s.Takes s.word ↔ 0 < u.scores flag := by
      rw [Takes, reads, decodes.scores flag (apart flag isFlag)]
      exact ⟨fun all => all flag rfl, fun holds other mem => by cases mem; exact holds⟩
    rw [row, effects_jumpIf isFlag, if_neg plain]
    by_cases positive : 0 < u.scores flag
    · rw [if_pos positive, if_pos (takes.2 positive)]
      exact same.leap
    · rw [if_neg positive, if_neg fun goes => positive (takes.1 goes)]
      have zero : u.scores ⟨"jumped"⟩ = 0 := (decodes.scores _ (by decide)).trans still
      rw [effects_advance, if_pos zero, ip]
      exact same.setScore _ _

end State

theorem exists_of_mem_stagesAt {table : List (String × List Stage)} {i : Nat} {stage : Stage}
    (mem : stage ∈ stagesAt table i) : ∃ entry, table[i]? = some entry ∧ stage ∈ entry.2 := by
  cases here : table[i]? with
  | none =>
    rw [stagesAt_eq_nil here] at mem
    cases mem
  | some entry => exact ⟨entry, rfl, stagesAt_eq here ▸ mem⟩

theorem arithmeticRows_names : arithmeticRows.map Prod.fst = rowNames 0 := rfl

/-- What tells where the machine goes next. -/
def course : List Variable := [⟨"ip"⟩, ⟨"jumped"⟩]

theorem touches_course {values : List Variable} (displays : ∀ v ∈ values, Variable.IsDisplay v) {n : Nat}
    (notJump : n / 1024 ≠ 1) (notReturn : n / 1024 = 0 → rowName? n ≠ some "ret") :
    ∀ v ∈ course, ∀ stage ∈ stagesAt (groupRows values (n / 1024)) (rowOf n - 1),
      v ∉ stage.touches := by
  intro v inCourse stage mem
  obtain ⟨entry, here, inEntry⟩ := exists_of_mem_stagesAt mem
  have inTable := List.mem_of_getElem? here
  have arithmetic : ∀ v ∈ course, ∀ row ∈ arithmeticRows, row.1 ≠ "ret" →
      ∀ stage ∈ row.2, v ∉ stage.touches := by decide
  have constant : ∀ v ∈ course, ∀ row ∈ constantRows, ∀ stage ∈ row.2, v ∉ stage.touches := by decide
  have foreign : ∀ v ∈ course, ¬ "card_print".toList <+: v.name.toList ∧ v ≠ ⟨"reg_src"⟩ := by decide
  unfold rowName? at notReturn
  generalize n / 1024 = number at *
  match number with
  | 0 =>
    have here : arithmeticRows[rowOf n - 1]? = some entry := here
    refine arithmetic v inCourse entry inTable (fun ret => notReturn rfl ?_) stage inEntry
    rw [← arithmeticRows_names, List.getElem?_map, here, Option.map_some, ret]
  | 1 => exact absurd rfl notJump
  | 2 => exact constant v inCourse entry inTable stage inEntry
  | _ + 3 =>
    obtain ⟨other, notRead⟩ := foreign v inCourse
    exact touches_printRows displays other notRead entry inTable stage inEntry

namespace State

variable {s t : State} {values : List Variable}

theorem next_of_course (still : s.scores ⟨"jumped"⟩ = 0)
    (spared : ∀ v ∈ course, ∀ stage ∈ stagesAt (groupRows values (s.word / 1024)) (rowOf s.word - 1),
      v ∉ stage.touches) : (s.next values).scores ⟨"ip"⟩ = s.scores ⟨"ip"⟩ + 1 := by
  have decodes := s.sameBut_selected values
  have kept (v : Variable) (inCourse : v ∈ course) (outside : v ∉ decoded) :
      (effects (stagesAt (groupRows values (s.word / 1024)) (rowOf s.word - 1))
        (s.selected values)).scores v = s.scores v :=
    (scores_effects (spared v inCourse) _).trans (decodes.scores v outside)
  have mark := (kept ⟨"jumped"⟩ (by decide) (by decide)).trans still
  rw [next_eq, effects_advance, if_pos mark, scores_setScore_self, kept _ (by decide) (by decide)]

theorem scores_selected_source (values : List Variable) (group : s.word / 1024 = 0) :
    (s.selected values).scores ⟨"arith_src"⟩ = Int32.ofNat (s.word % 8) := by
  have source : (selectArithmetic s.word (s.fetch.decode s.word)).scores ⟨"arith_src"⟩ =
      Int32.ofNat (s.word % 8) := by
    rw [selectArithmetic, scores_setScore_of_ne _ (by decide), scores_setScore_of_ne _ (by decide),
      scores_setScore_self]
  rw [selected, group]
  exact source

theorem stagesAt_return (group : s.word / 1024 = 0) (named : rowName? s.word = some "ret") :
    stagesAt (groupRows values (s.word / 1024)) (rowOf s.word - 1) = returnStages := by
  have rows : ∀ row ∈ arithmeticRows, row.1 = "ret" → row.2 = returnStages := by decide
  rw [rowName?, group, ← arithmeticRows_names, List.getElem?_map] at named
  obtain ⟨entry, here, isReturn⟩ := Option.map_eq_some_iff.1 named
  rw [group]
  exact (stagesAt_eq here).trans (rows entry (List.mem_of_getElem? here) isReturn)

theorem next_return (values : List Variable) (returns : IsReturn s.word) :
    (s.drop.setScore ⟨"ip"⟩ s.top).SameBut jumpWorkspace (s.next values) := by
  obtain ⟨group, named, zero⟩ := returns
  have decodes := s.sameBut_selected values
  have same : s.SameBut jumpWorkspace (s.selected values) := decodes.mono (by decide)
  have source := scores_selected_source values group
  have pointer := decodes.scores ⟨"sp"⟩ (by decide)
  rw [next_eq, stagesAt_return group named, effects_ret, source, zero, if_pos (by decide)]
  have marked : (((s.selected values).drop.setScore ⟨"ip"⟩ (s.selected values).top).setScore
      ⟨"jumped"⟩ 1).scores ⟨"jumped"⟩ = 1 := scores_setScore_self _ _ _
  rw [effects_advance, marked, if_neg (by decide), drop, drop, top, top, pointer, same.read]
  exact (((same.setScore _ _).setScore _ _).setOne (by decide) _).setOne (by decide) _

theorem next_other (displays : ∀ v ∈ values, Variable.IsDisplay v) (still : s.scores ⟨"jumped"⟩ = 0)
    (notJump : s.word / 1024 ≠ 1) (notReturn : ¬ IsReturn s.word) :
    (s.next values).scores ⟨"ip"⟩ = s.scores ⟨"ip"⟩ + 1 := by
  by_cases idle : s.word / 1024 = 0 ∧ rowName? s.word = some "ret"
  · obtain ⟨group, named⟩ := idle
    have decodes := s.sameBut_selected values
    have source := scores_selected_source values group
    have nonzero : Int32.ofNat (s.word % 8) ≠ 0 := by
      have small : ∀ k < 8, Int32.ofNat k = 0 → k = 0 := by decide
      exact fun zero => notReturn ⟨group, named, small _ (Nat.mod_lt _ (by decide)) zero⟩
    have mark := (decodes.scores ⟨"jumped"⟩ (by decide)).trans still
    rw [next_eq, stagesAt_return group named, effects_ret, source, if_neg nonzero, effects_advance,
      if_pos mark, scores_setScore_self, decodes.scores _ (by decide)]
  · exact next_of_course still (touches_course displays notJump fun group named => idle ⟨group, named⟩)

end State

def bystanders : List Variable :=
  Registers.standard.general ++ Registers.standard.scratch ++ flagVariables

/-- How a state goes on with the word that it is to run. -/
structure State.Proceeds (s t : State) : Prop where
  settled : t.scores ⟨"jumped"⟩ = 0
  jump : s.word / 1024 = 1 → t.scores ⟨"ip"⟩ =
    if s.Takes s.word then jumpTarget s.word (s.scores ⟨"ip"⟩) (s.scores ⟨"cr"⟩)
    else s.scores ⟨"ip"⟩ + 1
  bystanders : s.word / 1024 = 1 → ∀ v ∈ bystanders, t.scores v = s.scores v
  call : IsCall s.word → t.scores ⟨"sp"⟩ = s.scores ⟨"sp"⟩ - 1 ∧
    t.cells = Function.update s.cells (Word.ofScore (s.scores ⟨"sp"⟩))
      (Word.ofScore (s.scores ⟨"ip"⟩ + 1))
  quiet : s.word / 1024 = 1 → ¬ IsCall s.word →
    t.scores ⟨"sp"⟩ = s.scores ⟨"sp"⟩ ∧ t.cells = s.cells
  ret : IsReturn s.word → t.scores ⟨"sp"⟩ = s.scores ⟨"sp"⟩ + 1 ∧
    t.scores ⟨"ip"⟩ = Word.score (s.cells (Word.ofScore (s.scores ⟨"sp"⟩ + 1)))
  other : s.word / 1024 ≠ 1 → ¬ IsReturn s.word → t.scores ⟨"ip"⟩ = s.scores ⟨"ip"⟩ + 1

theorem State.takes_of_isCall {s : State} {n : Nat} (calls : IsCall n) : s.Takes n := by
  intro flag mem
  have free : conditionFlag? "call" = none := rfl
  rw [jumpFlag?, calls.2, Option.bind_some, free] at mem
  cases mem

theorem State.proceeds_next {s : State} {values : List Variable}
    (displays : ∀ v ∈ values, Variable.IsDisplay v) (still : s.scores ⟨"jumped"⟩ = 0) :
    s.Proceeds (s.next values) where
  settled := scores_advance_jumped _
  jump group := by
    rw [(next_jump values group still).scores _ (by decide), State.jump]
    by_cases calls : IsCall s.word
    · rw [if_pos calls, scores_setScore_self, if_pos (takes_of_isCall calls)]
    · rw [if_neg calls, scores_setScore_self]
  bystanders group v mem := by
    have apart : ∀ v ∈ Machine.bystanders, v ∉ jumpWorkspace ∧ v ≠ ⟨"ip"⟩ ∧ v ≠ ⟨"sp"⟩ := by decide
    obtain ⟨outside, notCourse, notPointer⟩ := apart v mem
    rw [(next_jump values group still).scores v outside, State.jump]
    split
    · rw [scores_setScore_of_ne _ notCourse, State.push, scores_setScore_of_ne _ notPointer, scores_write]
    · rw [scores_setScore_of_ne _ notCourse]
  call calls := by
    have jumps := next_jump values calls.1 still
    rw [jumps.scores _ (by decide), jumps.cells, State.jump, if_pos calls,
      scores_setScore_of_ne _ (by decide), cells_setScore, State.push, scores_setScore_self]
    exact ⟨rfl, rfl⟩
  quiet group plain := by
    have jumps := next_jump values group still
    rw [jumps.scores _ (by decide), jumps.cells, State.jump, if_neg plain,
      scores_setScore_of_ne _ (by decide)]
    exact ⟨rfl, rfl⟩
  ret returns := by
    have back := next_return values returns
    rw [back.scores _ (by decide), back.scores _ (by decide), scores_setScore_of_ne _ (by decide),
      scores_setScore_self, State.drop, scores_setScore_self]
    exact ⟨rfl, rfl⟩
  other := next_other displays still

/-- One run of the primary chain goes on with the word at the instruction register, and returning from a
call resumes behind it. -/
theorem cycle_controls_flow (G : Ground) (printCards : ∀ card ∈ G.cards, IsPrintCard card)
    {limit : Nat} (enough : G.parts.primary.length < limit) {w : World} {s : State} (h : G.Shows w s)
    (still : s.scores ⟨"jumped"⟩ = 0) :
    ∃ w' t, World.runChain limit ⟨0, 0, 1⟩ w = some w' ∧ G.Shows w' t ∧ s.Proceeds t ∧
      (IsCall s.word → ∀ (v : World) (u : State), G.Shows v u → u.scores ⟨"jumped"⟩ = 0 →
        IsReturn u.word → u.scores ⟨"sp"⟩ = t.scores ⟨"sp"⟩ →
        u.cells (Word.ofScore (s.scores ⟨"sp"⟩)) = t.cells (Word.ofScore (s.scores ⟨"sp"⟩)) →
        ∃ v' u', World.runChain limit ⟨0, 0, 1⟩ v = some v' ∧ G.Shows v' u' ∧
          u'.scores ⟨"ip"⟩ = Int32.ofInt ((s.scores ⟨"ip"⟩ + 1).toInt % 4096) ∧
          u'.scores ⟨"sp"⟩ = s.scores ⟨"sp"⟩) := by
  obtain ⟨values, cards, displays⟩ := exists_values printCards
  obtain ⟨w', ran, shows⟩ := Ground.runs_cycle cards displays h enough
  have proceeds := State.proceeds_next displays still
  refine ⟨w', _, ran, shows, proceeds, fun calls v u shows' still' returns pointer cell => ?_⟩
  obtain ⟨v', ran', shows''⟩ := Ground.runs_cycle cards displays shows' enough
  obtain ⟨pointer', back⟩ := (State.proceeds_next displays still').ret returns
  obtain ⟨lowered, stored⟩ := proceeds.call calls
  have raised : u.scores ⟨"sp"⟩ + 1 = s.scores ⟨"sp"⟩ := by
    rw [pointer, lowered, Int32.sub_add_cancel]
  refine ⟨v', _, ran', shows'', ?_, pointer'.trans raised⟩
  rw [back, raised, cell, stored, Function.update_self, Word.score_ofScore]

def callState : State :=
  ((Ground.stateOf [(⟨"sp"⟩, 4095), (⟨"cr"⟩, 7)]).write 0 2033).write 263 1008

theorem cycle_controls_flow_call :
    ∃ (G : Ground) (limit : Nat) (w w' v : World) (t u : State),
      (∀ card ∈ G.cards, IsPrintCard card) ∧ G.parts.primary.length < limit ∧ G.Shows w callState ∧
      callState.scores ⟨"jumped"⟩ = 0 ∧ IsCall callState.word ∧
      World.runChain limit ⟨0, 0, 1⟩ w = some w' ∧ G.Shows w' t ∧ t.scores ⟨"ip"⟩ = 263 ∧
      World.runChain limit ⟨0, 0, 1⟩ w' = some v ∧ G.Shows v u ∧ u.scores ⟨"ip"⟩ = 1 ∧
      u.scores ⟨"sp"⟩ = 4095 := by
  obtain ⟨G, cards, constants⟩ := Ground.exists_bare
  have shows : G.Shows (G.picture callState) callState :=
    Ground.shows_stateOf constants (by decide) (by decide) rfl
  have printCards : ∀ card ∈ G.cards, IsPrintCard card := by
    rw [cards]
    exact List.forall_mem_nil _
  have calls : IsCall callState.word := by decide
  obtain ⟨w', t, ran, shows', proceeds, returns⟩ := cycle_controls_flow G printCards
    (Nat.lt_succ_self _) shows (by decide)
  have address : t.scores ⟨"ip"⟩ = 263 := by
    rw [proceeds.jump calls.1]
    decide
  have word : t.word = 1008 := by
    rw [State.word, address, (proceeds.call calls).2]
    decide
  obtain ⟨v, u, ran', shows'', resumed, pointer⟩ := returns calls w' t shows' proceeds.settled
    (word ▸ by decide) rfl rfl
  exact ⟨G, _, _, w', v, t, u, printCards, Nat.lt_succ_self _, shows, by decide, calls, ran, shows',
    address, ran', shows'', resumed.trans (by decide), pointer.trans (by decide)⟩

end Machine

end BlockComputer
