import BlockComputer.Proofs.Memory.Word

/-!
Counts and residues.

Two counts of a barrel are those of one word, and a number is stored as the word that it is congruent to.
Read as unsigned or as two's complement, the counts give a number that is congruent to the stored one, so
storing what was read changes nothing, and two numbers are stored alike just if they are congruent.
-/

namespace BlockComputer.Machine

namespace Word

def signed (a : Word) : Int32 :=
  Int32.ofInt (if 2048 ≤ a.val then a.val - 4096 else a.val)

theorem toInt_signed (a : Word) : (signed a).toInt = if 2048 ≤ a.val then (a.val : Int) - 4096 else a.val := by
  have less := a.isLt
  rw [signed]
  split <;> rw [Int32.toInt_ofInt_of_le (by omega) (by omega)]

@[simp] theorem ofScore_signed (a : Word) : ofScore (signed a) = a := by
  have less := a.isLt
  have residue := val_ofScore (signed a)
  rw [toInt_signed] at residue
  apply Fin.ext
  split at residue <;> omega

theorem signed_bounds (a : Word) : -2048 ≤ (signed a).toInt ∧ (signed a).toInt ≤ 2047 := by
  have less := a.isLt
  rw [toInt_signed]
  split <;> omega

theorem toSigned_counts (a : Word) : (counts a).toSigned = .ok (signed a) := by
  have less := a.isLt
  have size : Counts.word.toInt = 4096 := rfl
  have two : Int.pow 2 31 = 2147483648 := rfl
  rw [Counts.toSigned, toNumber_counts]
  simp only [bind, Except.bind, size, toInt_score, signed]
  by_cases upper : 2048 ≤ a.val
  · rw [if_pos (by omega), if_pos upper, narrow, if_pos (by omega)]
  · rw [if_neg (by omega), if_neg upper, Int32.ofInt_eq_ofNat]
    rfl

theorem counts_injective {a b : Word} (same : counts a = counts b) : a = b := by
  have read := congrArg Counts.toNumber same
  rw [toNumber_counts, toNumber_counts] at read
  exact score_injective (Except.ok.inj read)

theorem exists_counts_eq {c : Counts} (high : IsCount c.high) (low : IsCount c.low) : ∃ a, counts a = c := by
  obtain ⟨above, below⟩ := high
  obtain ⟨above', below'⟩ := low
  let a : Word := ⟨((c.high.toInt - 1) * 64 + (c.low.toInt - 1)).toNat, by omega⟩
  have upper : ((a.val / 64 + 1 : Nat) : Int) = c.high.toInt := by simp only [a]; omega
  have lower : ((a.val % 64 + 1 : Nat) : Int) = c.low.toInt := by simp only [a]; omega
  refine ⟨a, ?_⟩
  rw [counts_eq, ← Int32.ofInt_eq_ofNat, ← Int32.ofInt_eq_ofNat, upper, lower, Int32.ofInt_toInt,
    Int32.ofInt_toInt]

end Word

/-- Every number has two counts that a barrel can hold; they are read as its residue, and as the signed number of
twelve bits that is congruent to it. Every two counts of a barrel are those of what they are read as, either way.
So numbers have the same counts exactly when they are congruent. -/
theorem counts_match_residues :
    (∀ n : Int32, let c := Counts.ofNumber n
      (IsCount c.high ∧ IsCount c.low) ∧
      (∃ m, c.toNumber = .ok m ∧ m.toInt = n.toInt % 4096) ∧
      ∃ m, c.toSigned = .ok m ∧ (-2048 ≤ m.toInt ∧ m.toInt ≤ 2047) ∧ m.toInt % 4096 = n.toInt % 4096) ∧
    (∀ c : Counts, IsCount c.high → IsCount c.low → ∃ m k,
      c.toNumber = .ok m ∧ c.toSigned = .ok k ∧ .ofNumber m = c ∧ .ofNumber k = c) ∧
    ∀ m n : Int32, Counts.ofNumber m = .ofNumber n ↔ m.toInt % 4096 = n.toInt % 4096 := by
  refine ⟨fun n => ?_, fun c high low => ?_, fun m n => ?_⟩
  · have residue := Word.val_ofScore n
    rw [← Word.counts_ofScore]
    generalize Word.ofScore n = a at residue
    have congruent := Word.val_ofScore (Word.signed a)
    rw [Word.ofScore_signed] at congruent
    exact ⟨Word.isCount_counts a, ⟨_, Word.toNumber_counts a, (Word.toInt_score a).trans residue⟩,
      _, Word.toSigned_counts a, Word.signed_bounds a, congruent.symm.trans residue⟩
  · obtain ⟨a, rfl⟩ := Word.exists_counts_eq high low
    refine ⟨_, _, Word.toNumber_counts a, Word.toSigned_counts a, ?_, ?_⟩
    · rw [← Word.counts_ofScore, Word.ofScore_score]
    · rw [← Word.counts_ofScore, Word.ofScore_signed]
  · rw [← Word.ofScore_eq_iff, ← Word.counts_ofScore, ← Word.counts_ofScore]
    exact ⟨Word.counts_injective, congrArg Word.counts⟩

/-- The least number of 32 bits is stored like zero, and the greatest counts are read as -1. -/
theorem counts_match_residues_extremes :
    Counts.ofNumber (-2147483648) = .ofNumber 0 ∧
      ∃ m k, Counts.toNumber ⟨64, 64⟩ = .ok m ∧ Counts.toSigned ⟨64, 64⟩ = .ok k ∧
        Counts.ofNumber m = ⟨64, 64⟩ ∧ Counts.ofNumber k = ⟨64, 64⟩ ∧ m = 4095 ∧ k = -1 := by
  obtain ⟨-, stored, alike⟩ := counts_match_residues
  obtain ⟨m, k, number, signed, back, back'⟩ := stored ⟨64, 64⟩ ⟨by decide, by decide⟩ ⟨by decide, by decide⟩
  have read : Counts.toNumber ⟨64, 64⟩ = .ok 4095 := by decide
  have read' : Counts.toSigned ⟨64, 64⟩ = .ok (-1) := by decide
  exact ⟨(alike _ _).2 (by decide), m, k, number, signed, back, back',
    Except.ok.inj (number.symm.trans read), Except.ok.inj (signed.symm.trans read')⟩

end BlockComputer.Machine
