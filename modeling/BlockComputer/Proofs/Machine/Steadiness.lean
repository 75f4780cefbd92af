import BlockComputer.Proofs.Machine.Flow

/-!
What every cycle leaves behind.

Between cycles there is no mark, the last word is still in its register, and the flags are those of one
comparison if there has been any. Only the two comparing rows touch the flags, and they set all six.
-/

namespace BlockComputer.Machine

namespace State

def Compares (s : State) (a b : Int32) : Prop :=
  ∀ flag ∈ flagVariables, s.scores flag = (s.setFlags a b).scores flag

def HasFlags (s : State) : Prop :=
  (∀ flag ∈ flagVariables, s.scores flag = 0) ∨ ∃ a b, s.Compares a b

/-- What holds of the machine between cycles. -/
structure IsSteady (s : State) : Prop where
  unmarked : s.scores ⟨"jumped"⟩ = 0
  opcode : ∃ n < 4096, s.scores ⟨"opcode"⟩ = Int32.ofNat n
  flags : s.HasFlags

variable {s t : State}

theorem scores_setFlags_eq (s t : State) (a b : Int32) :
    ∀ flag ∈ flagVariables, (s.setFlags a b).scores flag = (t.setFlags a b).scores flag := by
  simp only [flagVariables, setFlags, List.forall_mem_cons, scores_setScore]
  simp

theorem compares_setFlags (s : State) (a b : Int32) : (s.setFlags a b).Compares a b :=
  scores_setFlags_eq _ _ a b

theorem HasFlags.congr (h : s.HasFlags) (same : ∀ flag ∈ flagVariables, t.scores flag = s.scores flag) :
    t.HasFlags := by
  rcases h with zero | ⟨a, b, compares⟩
  · exact .inl fun flag mem => (same flag mem).trans (zero flag mem)
  · refine .inr ⟨a, b, fun flag mem => ?_⟩
    rw [same flag mem, compares flag mem, scores_setFlags_eq s t a b flag mem]

theorem Compares.consistent {a b : Int32} (h : s.Compares a b) :
    s.scores ⟨"EQ"⟩ = 1 - s.scores ⟨"NE"⟩ ∧ s.scores ⟨"GE"⟩ = 1 - s.scores ⟨"LF"⟩ ∧
      s.scores ⟨"GT"⟩ = 1 - s.scores ⟨"LE"⟩ ∧
      (s.scores ⟨"LE"⟩ = 1 ↔ s.scores ⟨"LF"⟩ = 1 ∨ s.scores ⟨"EQ"⟩ = 1) := by
  rw [h ⟨"EQ"⟩ (by decide), h ⟨"NE"⟩ (by decide), h ⟨"GE"⟩ (by decide), h ⟨"LF"⟩ (by decide),
    h ⟨"GT"⟩ (by decide), h ⟨"LE"⟩ (by decide)]
  have le : a ≤ b ↔ a < b ∨ a = b := by
    rw [Int32.le_iff_toInt_le, Int32.lt_iff_toInt_lt, ← Int32.toInt_inj]
    omega
  have ge : b ≤ a ↔ ¬ a < b := by
    rw [Int32.le_iff_toInt_le, Int32.lt_iff_toInt_lt, Int.not_lt]
  have gt : b < a ↔ ¬ a ≤ b := by
    rw [Int32.le_iff_toInt_le, Int32.lt_iff_toInt_lt, Int.not_le]
  simp only [setFlags, scores_setScore, ge, gt, le]
  by_cases less : a < b <;> by_cases eq : a = b <;> simp [less, eq, verdict]

end State

/-- No stage touches a flag, or the last ones are a comparison. -/
def KeepsFlags (stages : List Stage) : Prop :=
  (∀ flag ∈ flagVariables, ∀ stage ∈ stages, flag ∉ stage.touches) ∨
    ∃ before left right, (∀ v ∈ left :: sourceReads right, v ∉ flagVariables) ∧
      stages = before ++ compareStages left right

theorem KeepsFlags.hasFlags {stages : List Stage} (h : KeepsFlags stages) {s : State}
    (flags : s.HasFlags) : (effects stages s).HasFlags := by
  rcases h with spared | ⟨before, left, right, apart, rfl⟩
  · exact flags.congr fun flag mem => scores_effects (spared flag mem) s
  · rw [effects_append, effects_compare apart]
    exact .inr ⟨_, _, State.compares_setFlags _ _ _⟩

theorem keepsFlags_arithmeticRows : ∀ row ∈ arithmeticRows, KeepsFlags row.2 := by
  have others : ∀ row ∈ arithmeticRows, row.1 ≠ "cmp" → row.1 ≠ "cmp0" →
      ∀ flag ∈ flagVariables, ∀ stage ∈ row.2, flag ∉ stage.touches := by decide
  have registers : ∀ row ∈ arithmeticRows, row.1 = "cmp" →
      row.2 = (readDestination ++ readStages .loadGeneral ⟨"arith_src"⟩ ⟨"arith_b"⟩)
        ++ compareStages ⟨"arith_a"⟩ (.variable ⟨"arith_b"⟩) := by decide
  have zero : ∀ row ∈ arithmeticRows, row.1 = "cmp0" →
      row.2 = readStages .loadGeneral ⟨"arith_src"⟩ ⟨"arith_a"⟩
        ++ compareStages ⟨"arith_a"⟩ (.literal 0) := by decide
  intro row mem
  by_cases cmp : row.1 = "cmp"
  · exact .inr ⟨_, _, _, by decide, registers row mem cmp⟩
  · by_cases cmp0 : row.1 = "cmp0"
    · exact .inr ⟨_, _, _, by decide, zero row mem cmp0⟩
    · exact .inl (others row mem cmp cmp0)

theorem keepsFlags_stagesAt {values : List Variable} (displays : ∀ v ∈ values, Variable.IsDisplay v)
    (number i : Nat) : KeepsFlags (stagesAt (groupRows values number) i) := by
  have jump : ∀ row ∈ jumpRows, ∀ flag ∈ flagVariables, ∀ stage ∈ row.2, flag ∉ stage.touches := by
    decide
  have constant : ∀ row ∈ constantRows, ∀ flag ∈ flagVariables, ∀ stage ∈ row.2,
      flag ∉ stage.touches := by decide
  have foreign : ∀ flag ∈ flagVariables, ¬ "card_print".toList <+: flag.name.toList ∧
      flag ≠ ⟨"reg_src"⟩ := by decide
  cases here : (groupRows values number)[i]? with
  | none =>
    rw [stagesAt_eq_nil here]
    exact .inl fun _ _ _ mem => nomatch mem
  | some row =>
    rw [stagesAt_eq here]
    have mem := List.mem_of_getElem? here
    match number with
    | 0 => exact keepsFlags_arithmeticRows row mem
    | 1 => exact .inl (jump row mem)
    | 2 => exact .inl (constant row mem)
    | _ + 3 =>
      refine .inl fun flag isFlag => ?_
      obtain ⟨other, notRead⟩ := foreign flag isFlag
      exact touches_printRows displays other notRead row mem

theorem touches_opcode {values : List Variable} (displays : ∀ v ∈ values, Variable.IsDisplay v)
    (number i : Nat) : ∀ stage ∈ stagesAt (groupRows values number) i, ⟨"opcode"⟩ ∉ stage.touches := by
  have arithmetic : ∀ row ∈ arithmeticRows, ∀ stage ∈ row.2, ⟨"opcode"⟩ ∉ stage.touches := by decide
  have jump : ∀ row ∈ jumpRows, ∀ stage ∈ row.2, ⟨"opcode"⟩ ∉ stage.touches := by decide
  have constant : ∀ row ∈ constantRows, ∀ stage ∈ row.2, ⟨"opcode"⟩ ∉ stage.touches := by decide
  intro stage mem
  obtain ⟨row, here, inRow⟩ := exists_of_mem_stagesAt mem
  have inTable := List.mem_of_getElem? here
  match number with
  | 0 => exact arithmetic row inTable stage inRow
  | 1 => exact jump row inTable stage inRow
  | 2 => exact constant row inTable stage inRow
  | _ + 3 => exact touches_printRows displays (by decide) (by decide) row inTable stage inRow

namespace State

variable {s : State} {values : List Variable}

theorem scores_selected_opcode (values : List Variable) (s : State) :
    (s.selected values).scores ⟨"opcode"⟩ = Int32.ofNat s.word := by
  have kept : (s.fetch.decode s.word).scores ⟨"opcode"⟩ = Int32.ofNat s.word := by
    rw [decode, scores_setScore_of_ne _ (by decide), fetch, scores_setScore_self]
  unfold selected selectState
  split
  · simpa (disch := decide) only [selectArithmetic, scores_setScore_of_ne] using kept
  · unfold selectJump
    split <;> simpa (disch := decide) only [scores_setScore_of_ne] using kept
  · simpa (disch := decide) only [selectConstant, scores_setScore_of_ne] using kept
  · split <;>
      simpa (disch := decide) only [selectCard, selectCardArgument, scores_setScore_of_ne] using kept

theorem isSteady_next (displays : ∀ v ∈ values, Variable.IsDisplay v) (flags : s.HasFlags) :
    (s.next values).IsSteady where
  unmarked := scores_advance_jumped _
  opcode := by
    have untouched : ∀ stage ∈ advanceStages, ⟨"opcode"⟩ ∉ stage.touches := by decide
    refine ⟨s.word, Fin.isLt _, ?_⟩
    rw [next_eq, scores_effects untouched, scores_effects (touches_opcode displays _ _),
      scores_selected_opcode]
  flags := by
    have apart : ∀ flag ∈ flagVariables, flag ∉ decoded := by decide
    have advanced : KeepsFlags advanceStages := .inl (by decide)
    have selected : (s.selected values).HasFlags :=
      flags.congr fun flag mem => (s.sameBut_selected values).scores flag (apart flag mem)
    exact advanced.hasFlags ((keepsFlags_stagesAt displays _ _).hasFlags selected)

/-- Whatever the memory holds, every run of cycles keeps everything in order. -/
theorem IsSteady.iterate (h : s.IsSteady) (displays : ∀ v ∈ values, Variable.IsDisplay v) (n : Nat) :
    ((State.next values)^[n] s).IsSteady := by
  induction n with
  | zero => exact h
  | succ n ih =>
    rw [Function.iterate_succ_apply']
    exact isSteady_next displays ih.flags

end State

end BlockComputer.Machine
