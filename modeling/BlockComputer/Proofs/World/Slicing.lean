import BlockComputer.Proofs.Emission.Arithmetic
import BlockComputer.Proofs.Emission.Constants
import BlockComputer.Proofs.World.Execution

/-!
What arithmetic on scores computes, on numbers that fit.

A slice copies a score and keeps some of its bits; as a chain it sets one score, to a quotient and a
remainder, provided the constants it reads hold their numbers.
-/

namespace BlockComputer

namespace ScoreOp

theorem apply_div_of_pos (a b : Int32) (pos : 0 < b.toInt) :
    ScoreOp.div.apply a b = Int32.ofInt (a.toInt / b.toInt) := by
  have nonzero : b ≠ 0 := by
    rintro rfl
    exact absurd pos (by decide)
  rw [apply, if_neg nonzero, Int.fdiv_eq_ediv_of_nonneg _ (Int.le_of_lt pos)]

theorem apply_mod_of_pos (a b : Int32) (pos : 0 < b.toInt) :
    ScoreOp.mod.apply a b = Int32.ofInt (a.toInt % b.toInt) := by
  have nonzero : b ≠ 0 := by
    rintro rfl
    exact absurd pos (by decide)
  rw [apply, if_neg nonzero, Int.fmod_eq_emod_of_nonneg _ (Int.le_of_lt pos)]

theorem apply_div_ofNat {a b : Nat} (ha : a < 2 ^ 31) (hb : b < 2 ^ 31) (pos : 0 < b) :
    ScoreOp.div.apply (Int32.ofNat a) (Int32.ofNat b) = Int32.ofNat (a / b) := by
  have divisor := Int32.toInt_ofNat_of_lt hb
  rw [apply_div_of_pos _ _ (by omega), Int32.toInt_ofNat_of_lt ha, divisor, ← Int.natCast_ediv,
    Int32.ofInt_eq_ofNat]

theorem apply_mod_ofNat {a b : Nat} (ha : a < 2 ^ 31) (hb : b < 2 ^ 31) (pos : 0 < b) :
    ScoreOp.mod.apply (Int32.ofNat a) (Int32.ofNat b) = Int32.ofNat (a % b) := by
  have modulus := Int32.toInt_ofNat_of_lt hb
  rw [apply_mod_of_pos _ _ (by omega), Int32.toInt_ofNat_of_lt ha, modulus, ← Int.natCast_emod,
    Int32.ofInt_eq_ofNat]

theorem apply_mod_of_neg (a b : Int32) (neg : b.toInt < 0) :
    ScoreOp.mod.apply a b = Int32.ofInt (a.toInt % b.toInt + if b.toInt ∣ a.toInt then 0 else b.toInt) := by
  have nonzero : b ≠ 0 := by
    rintro rfl
    exact absurd neg (by decide)
  have sign : ¬ 0 ≤ b.toInt := Int.not_le.2 neg
  simp only [apply, if_neg nonzero, Int.fmod_eq_emod, sign, false_or]

end ScoreOp

theorem toInt_two_pow {k : Nat} (h : k ≤ 30) : (Int32.ofNat (2 ^ k)).toInt = 2 ^ k := by
  have less : 2 ^ k < 2 ^ 31 := Nat.pow_lt_pow_right (by decide) (by omega)
  rw [Int32.toInt_ofNat_of_lt less]
  simp

theorem toInt_ediv_bounds (a : Int32) {b : Int} (pos : 0 < b) :
    -2 ^ 31 ≤ a.toInt / b ∧ a.toInt / b < 2 ^ 31 := by
  have low := Int32.le_toInt a
  have high := Int32.toInt_lt a
  exact ⟨Int.le_ediv_of_mul_le pos (by omega), Int.ediv_lt_of_lt_mul pos (by omega)⟩

theorem lt_ofNat_iff {a b : Nat} (ha : a < 2 ^ 31) (hb : b < 2 ^ 31) :
    Int32.ofNat a < Int32.ofNat b ↔ a < b := by
  rw [Int32.lt_iff_toInt_lt, Int32.toInt_ofNat_of_lt ha, Int32.toInt_ofNat_of_lt hb]
  omega

theorem Condition.holds_ofComparison (w : World) (v : Variable) (c : Comparison) (k : Int32) :
    (Condition.ofComparison v c (.literal k)).holds w = c.holds (w.score v) k := by
  cases c with
  | lt =>
    simp only [ofComparison, holds, Comparison.range, Range.contains, Comparison.holds,
      Int32.lt_iff_toInt_lt, Int.le_sub_one_iff]
  | le => simp only [ofComparison, holds, Comparison.range, Range.contains, Comparison.holds,
      Int32.le_iff_toInt_le]
  | eq =>
    simp only [ofComparison, holds, Comparison.range, Range.exactly, Range.contains,
      Comparison.holds, ← Int32.toInt_inj]
    rw [Bool.eq_iff_iff]
    simp
    omega
  | ge => simp only [ofComparison, holds, Comparison.range, Range.contains, Comparison.holds,
      Int32.le_iff_toInt_le]
  | gt =>
    simp only [ofComparison, holds, Comparison.range, Range.contains, Comparison.holds,
      Int32.lt_iff_toInt_lt, Int.add_one_le_iff]

namespace World

/-- The constants hold the numbers that they are named after. -/
def Knows (w : World) (ks : List Int32) : Prop :=
  ∀ k ∈ ks, w.score (constantNamed k) = k

@[simp] theorem setScore_setScore (w : World) (v : Variable) (m n : Int32) :
    (w.setScore v m).setScore v n = w.setScore v n := by
  simp [setScore]

theorem scores_setScore_self (w : World) (v : Variable) (n : Int32) : (w.setScore v n).scores v = some n :=
  Function.update_self _ _ _

theorem setScore_eq_self {w : World} {v : Variable} {n : Int32} (value : w.scores v = some n) :
    w.setScore v n = w := by
  rw [setScore, ← value, Function.update_eq_self]

theorem Knows.setForeign {w : World} {ks : List Int32} (h : w.Knows ks) {v : Variable}
    (foreign : v.IsForeign) (n : Int32) : (w.setScore v n).Knows ks := by
  intro k mem
  rw [score_setScore_of_ne _ (foreign k).symm, h k mem]

theorem Knows.setScore {w : World} {ks : List Int32} (h : w.Knows ks) {v : Variable}
    (word : v.isWord) (n : Int32) : (w.setScore v n).Knows ks :=
  h.setForeign (Variable.isForeign_of_isWord word) n

theorem Knows.mono {w : World} {ks ls : List Int32} (h : w.Knows ks) (subset : ls ⊆ ks) :
    w.Knows ls :=
  fun k mem => h k (subset mem)

theorem Knows.after_operateScore {w : World} {ks : List Int32} (h : w.Knows ks) {k : Int32} (mem : k ∈ ks)
    {op : ScoreOp} (ne : op ≠ .swap) (v : Variable) (origin : Point) :
    (Command.operateScore v op (constantNamed k)).after origin w = w.setScore v (op.apply (w.score v) k) := by
  rw [Command.after_operateScore _ _ _ _ ne, h k mem]

theorem Knows.after_operateScore_setScore {w : World} {ks : List Int32} (h : w.Knows ks) {k : Int32}
    (mem : k ∈ ks) {op : ScoreOp} (ne : op ≠ .swap) {v : Variable} (foreign : v.IsForeign) (n : Int32)
    (origin : Point) :
    (Command.operateScore v op (constantNamed k)).after origin (w.setScore v n) =
      w.setScore v (op.apply n k) := by
  rw [(h.setForeign foreign n).after_operateScore mem ne, score_setScore_self, setScore_setScore]

end World

theorem Variable.after_addCommand (v : Variable) (amount : Int) (origin : Point) (w : World) :
    (v.addCommand amount).after origin w = w.setScore v (w.score v + Int32.ofInt amount) := by
  unfold addCommand
  by_cases sign : 0 ≤ amount
  · rw [if_pos sign, Command.after_addScore, ← Int32.ofInt_eq_ofNat, Int.natAbs_of_nonneg sign]
  · have negative : ((amount.natAbs : Nat) : Int) = -amount := by omega
    rw [if_neg sign, Command.after_removeScore, ← Int32.ofInt_eq_ofNat, negative, Int32.ofInt_neg,
      Int32.sub_eq_add_neg, Int32.neg_neg]

theorem Variable.after_addCommand_setScore (v : Variable) (n : Int32) (amount : Int) (origin : Point) (w : World) :
    (v.addCommand amount).after origin (w.setScore v n) = w.setScore v (n + Int32.ofInt amount) := by
  rw [after_addCommand, World.score_setScore_self, World.setScore_setScore]

def Variable.sliceOf (v u : Variable) (skip length : Nat) (last : Bool) : List Command :=
  .operateScore v .set u :: v.sliceCommands skip length last

def sliceValue (n skip length : Nat) (last : Bool) : Nat :=
  if last then n / 2 ^ skip else n / 2 ^ skip % 2 ^ length

def sliceScore (n : Int32) (skip length : Nat) (last : Bool) : Int32 :=
  if last then Int32.ofInt (n.toInt / 2 ^ skip)
  else ScoreOp.mod.apply (Int32.ofInt (n.toInt / 2 ^ skip)) (Int32.ofNat (2 ^ length))

section sliceScore

variable (n : Int32) {skip length : Nat}

theorem toInt_ofInt_quotient (skip : Nat) : (Int32.ofInt (n.toInt / 2 ^ skip)).toInt = n.toInt / 2 ^ skip := by
  have inRange := toInt_ediv_bounds n (b := 2 ^ skip) (Int.pow_pos (by decide))
  exact Int32.toInt_ofInt_of_le inRange.1 inRange.2

theorem toInt_sliceScore_last (skip length : Nat) :
    (sliceScore n skip length true).toInt = n.toInt / 2 ^ skip := by
  rw [sliceScore, if_pos rfl, toInt_ofInt_quotient]

theorem sliceScore_eq (skip : Nat) (hlength : length ≤ 30) :
    sliceScore n skip length false = Int32.ofInt (n.toInt / 2 ^ skip % 2 ^ length) := by
  have power := toInt_two_pow hlength
  rw [sliceScore, if_neg Bool.false_ne_true, ScoreOp.apply_mod_of_pos _ _ (power ▸ Int.pow_pos (by decide)),
    power, toInt_ofInt_quotient]

theorem sliceScore_ofNat {n : Nat} (small : n < 2 ^ 31) (skip : Nat) (hlength : length ≤ 30) (last : Bool) :
    sliceScore (Int32.ofNat n) skip length last = Int32.ofNat (sliceValue n skip length last) := by
  have number := Int32.toInt_ofNat_of_lt small
  cases last with
  | true =>
    rw [sliceScore, if_pos rfl, number, sliceValue, if_pos rfl, ← Int32.ofInt_eq_ofNat]
    simp
  | false =>
    rw [sliceScore_eq _ _ hlength, number, sliceValue, if_neg Bool.false_ne_true, ← Int32.ofInt_eq_ofNat]
    simp

end sliceScore

section slices

variable {w : World} {v u : Variable} {skip length : Nat} {last : Bool}

theorem World.runAll_sliceCommands {n : Int32} (value : w.scores v = some n) (hskip : skip ≤ 30)
    (knows : w.Knows (Variable.sliceConstants skip length last)) (foreign : v.IsForeign) (p : Site) :
    w.runAll p (v.sliceCommands skip length last) = w.setScore v (sliceScore n skip length last) := by
  have score : w.score v = n := by rw [World.score, value, Option.getD_some]
  have divided : w.runAll p
      (if 0 < skip then [.operateScore v .div (constantNamed (Int32.ofNat (2 ^ skip)))] else []) =
      w.setScore v (Int32.ofInt (n.toInt / 2 ^ skip)) := by
    by_cases skips : 0 < skip
    · have power := toInt_two_pow hskip
      rw [if_pos skips, runAll_cons, runAll_nil,
        knows.after_operateScore (by simp [Variable.sliceConstants, skips]) (by decide), score,
        ScoreOp.apply_div_of_pos _ _ (power ▸ Int.pow_pos (by decide)), power]
    · obtain rfl : skip = 0 := by omega
      simp [setScore_eq_self value]
  rw [Variable.sliceCommands, runAll_append, divided]
  cases last with
  | true => rfl
  | false =>
    rw [if_neg Bool.false_ne_true, runAll_cons, runAll_nil,
      knows.after_operateScore_setScore (by simp [Variable.sliceConstants]) (by decide) foreign]
    rfl

theorem World.runAll_sliceOf_eq (hskip : skip ≤ 30)
    (knows : w.Knows (Variable.sliceConstants skip length last)) (foreign : v.IsForeign) (p : Site) :
    w.runAll p (v.sliceOf u skip length last) = w.setScore v (sliceScore (w.score u) skip length last) := by
  have copied : (Command.operateScore v .set u).after p.centre w = w.setScore v (w.score u) :=
    Command.after_operateScore _ _ _ _ (by decide)
  rw [Variable.sliceOf, runAll_cons, copied,
    runAll_sliceCommands (scores_setScore_self _ _ _) hskip (knows.setForeign foreign _) foreign,
    setScore_setScore]

theorem World.runAll_sliceOf {n : Nat} (small : n < 2 ^ 31) (hskip : skip ≤ 30) (hlength : length ≤ 30)
    (knows : w.Knows (Variable.sliceConstants skip length last))
    (word : v.isWord)
    (value : w.score u = Int32.ofNat n) (p : Site) :
    w.runAll p (v.sliceOf u skip length last) =
      w.setScore v (Int32.ofNat (sliceValue n skip length last)) := by
  rw [runAll_sliceOf_eq hskip knows (Variable.isForeign_of_isWord word), value,
    sliceScore_ofNat small skip hlength]

/-- A slice keeps the bits of the quotient rounded down, for negative numbers too. -/
theorem World.runAll_sliceOf_floor (hskip : skip ≤ 30) (hlength : length ≤ 30)
    (knows : w.Knows (Variable.sliceConstants skip length false)) (foreign : v.IsForeign) (p : Site) :
    w.runAll p (v.sliceOf u skip length false) =
      w.setScore v (Int32.ofInt ((w.score u).toInt / 2 ^ skip % 2 ^ length)) := by
  rw [runAll_sliceOf_eq hskip knows foreign, sliceScore_eq _ skip hlength]

end slices

end BlockComputer
