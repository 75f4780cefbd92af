import BlockComputer.Proofs.Emission.Bits
import Mathlib.Data.Rat.Floor

/-!
An operation does the same with a number and with a variable that holds it.

A number goes one of four ways: a score is set to it, it is added or taken away as an amount, it is too
large to be an amount and comes from a constant, or it comes from a constant anyway. Each way changes one
score, to what the operator means for integers, wrapped to 32 bits.
-/

namespace BlockComputer

def Command.amount? : Command → Option Nat
  | .addScore _ n | .removeScore _ n => some n
  | _ => none

namespace ScoreOp

def meaning (op : ScoreOp) (a b : Int) : Int :=
  match op with
  | .set | .swap => b
  | .add => a + b
  | .sub => a - b
  | .mul => a * b
  | .div => if b = 0 then a else ((a : ℚ) / b).floor
  | .mod => if b = 0 then a else a - b * ((a : ℚ) / b).floor
  | .min => Min.min a b
  | .max => Max.max a b

theorem floor_div (a b : Int) : ((a : ℚ) / b).floor = a.fdiv b := by
  have natural (a : Int) (n : Nat) : ((a : ℚ) / (n : Int)).floor = a.fdiv n := by
    rw [Int.fdiv_eq_ediv_of_nonneg a (Int.natCast_nonneg n), Int.cast_natCast]
    exact Rat.floor_intCast_div_natCast a n
  obtain ⟨n, rfl | rfl⟩ := b.eq_nat_or_neg
  · exact natural a n
  · rw [← neg_neg a, Int.neg_fdiv_neg, ← natural, neg_neg, Int.cast_neg, Int.cast_neg, neg_div, div_neg]

theorem apply_eq_ofInt (op : ScoreOp) (a b : Int32) :
    op.apply a b = Int32.ofInt (op.meaning a.toInt b.toInt) := by
  have zero : b.toInt = 0 ↔ b = 0 := Int32.toInt_inj (y := 0)
  cases op with
  | set | swap => exact b.ofInt_toInt.symm
  | add => rw [meaning, Int32.ofInt_add, a.ofInt_toInt, b.ofInt_toInt, apply]
  | sub => rw [meaning, Int32.ofInt_sub, a.ofInt_toInt, b.ofInt_toInt, apply]
  | mul => rw [meaning, Int32.ofInt_mul, a.ofInt_toInt, b.ofInt_toInt, apply]
  | div =>
    simp only [apply, meaning, floor_div, zero]
    split
    · exact a.ofInt_toInt.symm
    · rfl
  | mod =>
    simp only [apply, meaning, floor_div, zero, ← Int.fmod_def]
    split
    · exact a.ofInt_toInt.symm
    · rfl
  | min =>
    simp only [apply, meaning, min_def, Int32.le_iff_toInt_le]
    split
    · exact a.ofInt_toInt.symm
    · exact b.ofInt_toInt.symm
  | max =>
    simp only [apply, meaning, max_def, Int32.le_iff_toInt_le]
    split
    · exact b.ofInt_toInt.symm
    · exact a.ofInt_toInt.symm

end ScoreOp

namespace Variable

/-- Adds a number of any size: an amount that is too large is read from a constant. -/
def changeCommand (v : Variable) (amount : Int) : Command :=
  if amount.natAbs < 2 ^ 31 then v.addCommand amount else .operateScore v .add (constantNamed (Int32.ofInt amount))

def changeConstants (amount : Int) : List Int32 :=
  if amount.natAbs < 2 ^ 31 then [] else [Int32.ofInt amount]

def literalCommand (v : Variable) (op : ScoreOp) (k : Int32) : Command :=
  match op with
  | .set => .setScore v k
  | .add => v.changeCommand k.toInt
  | .sub => v.changeCommand (-k.toInt)
  | _ => .operateScore v op (constantNamed k)

def literalConstants (op : ScoreOp) (k : Int32) : List Int32 :=
  match op with
  | .set => []
  | .add => changeConstants k.toInt
  | .sub => changeConstants (-k.toInt)
  | _ => [k]

end Variable

section emits

variable (v : Variable) {op : ScoreOp} (k : Int32)

theorem Emits.change (amount : Int) :
    Emits (v.addNumber amount) () [v.changeCommand amount] (Variable.changeConstants amount) := by
  unfold Variable.changeCommand Variable.changeConstants
  by_cases small : amount.natAbs < 2 ^ 31
  · rw [if_pos small, if_pos small]
    exact addNumber v small
  · rw [if_neg small, if_neg small, Variable.addNumber, if_neg (show ¬ amount.natAbs < Nat.pow 2 31 from small)]
    exact operateConstant v _ .add

theorem Emits.operateLiteral (ne : op ≠ .swap) :
    Emits (v.operate op (.literal k)) () [v.literalCommand op k] (Variable.literalConstants op k) := by
  cases op with
  | set => exact setTo v k
  | add => exact change v k.toInt
  | sub => exact change v (-k.toInt)
  | swap => exact absurd rfl ne
  | mul | div | mod | min | max => exact operateConstant v k _

theorem amount_changeCommand_lt {amount : Int} {n : Nat} (emitted : (v.changeCommand amount).amount? = some n) :
    n < 2 ^ 31 := by
  unfold Variable.changeCommand Variable.addCommand at emitted
  split at emitted
  · next small =>
    split at emitted
    · exact Option.some.inj emitted ▸ small
    · exact Option.some.inj emitted ▸ small
  · cases emitted

theorem amount_literalCommand_lt {n : Nat} (emitted : (v.literalCommand op k).amount? = some n) : n < 2 ^ 31 := by
  cases op with
  | add | sub => exact amount_changeCommand_lt v emitted
  | set | swap | mul | div | mod | min | max => cases emitted

end emits

section after

variable {w : World} {v : Variable} {op : ScoreOp} {k : Int32}

theorem after_changeCommand {amount : Int} (knows : w.Knows (Variable.changeConstants amount)) (origin : Point) :
    (v.changeCommand amount).after origin w = w.setScore v (w.score v + Int32.ofInt amount) := by
  unfold Variable.changeCommand
  unfold Variable.changeConstants at knows
  by_cases small : amount.natAbs < 2 ^ 31
  · rw [if_pos small, Variable.after_addCommand]
  · rw [if_neg small] at knows ⊢
    exact knows.after_operateScore (List.mem_singleton_self _) (by decide) v origin

theorem after_literalCommand (ne : op ≠ .swap) (knows : w.Knows (Variable.literalConstants op k)) (origin : Point) :
    (v.literalCommand op k).after origin w = w.setScore v (op.apply (w.score v) k) := by
  cases op with
  | set => rfl
  | add => rw [Variable.literalCommand, after_changeCommand knows, k.ofInt_toInt, ScoreOp.apply]
  | sub =>
    rw [Variable.literalCommand, after_changeCommand knows, Int32.ofInt_neg, k.ofInt_toInt,
      ← Int32.sub_eq_add_neg, ScoreOp.apply]
  | swap => exact absurd rfl ne
  | mul | div | mod | min | max => exact knows.after_operateScore (List.mem_singleton_self k) ne v origin

end after

/-- In a session with an open scope an operation of a foreign variable with a number, behind the initialization,
does what the operation with any variable that holds this number does: it sets the score to what the operator
means, in 32 bits, and changes nothing else, and no amount that it emits is above the largest number of 32 bits.
The second variable may be the first one. A swap trades two scores, and is refused with a number. -/
theorem literal_operands_agree {α : Type} {x : EmitM α} (client : Client x {}) {v : Variable}
    (foreign : v.IsForeign) (opened : (perform x {}).2.scopes ≠ []) :
    let s := (perform x {}).2
    (∀ op, op ≠ .swap → ∀ k, ∃ t cs, s.Gives (v.operate op (.literal k)) () t cs ∧
      (∀ c ∈ cs, ∀ n, c.amount? = some n → n ≤ 2147483647) ∧
      ∀ (u : World) (p : Site), u.IsInitialized t →
        u.runAll p cs = u.setScore v (Int32.ofInt (op.meaning (u.score v).toInt k.toInt)) ∧
        ∀ y t' ds, s.Gives (v.operate op (.variable y)) () t' ds → u.score y = k →
          ∀ q, u.runAll q ds = u.runAll p cs) ∧
    (∀ op, op ≠ .swap → ∀ y, ∃ t cs, s.Gives (v.operate op (.variable y)) () t cs ∧
      (∀ c ∈ cs, c.amount? = none) ∧ ∀ (u : World) (p : Site),
        u.runAll p cs = u.setScore v (Int32.ofInt (op.meaning (u.score v).toInt (u.score y).toInt))) ∧
    (∀ y, ∃ t cs, s.Gives (v.operate .swap (.variable y)) () t cs ∧ ∀ (u : World) (p : Site),
      u.runAll p cs = (u.setScore y (u.score v)).setScore v (u.score y)) ∧
    ∀ (k : Int32) (s : Session),
      perform (v.operate .swap (.literal k)) s = (.error (.error (.literalSwap v.name k)), s) := by
  intro s
  have byVariable (op : ScoreOp) (y : Variable) := (Emits.operateVariable v y op).gives opened
  have runs {op : ScoreOp} (ne : op ≠ .swap) (y : Variable) (u : World) (p : Site) :
      u.runAll p [.operateScore v op y] =
        u.setScore v (Int32.ofInt (op.meaning (u.score v).toInt (u.score y).toInt)) := by
    rw [World.runAll_cons, World.runAll_nil, Command.after_operateScore _ _ _ _ ne, ScoreOp.apply_eq_ofInt]
  refine ⟨fun op ne k => ?_, fun op ne y => ?_, fun y => ⟨_, _, byVariable .swap y, fun _ _ => rfl⟩,
    fun k s => rfl⟩
  · have byLiteral := (Emits.operateLiteral v k ne).gives opened
    refine ⟨_, _, byLiteral, List.forall_mem_singleton.2 fun n amount => ?_, fun u p initialized => ?_⟩
    · exact Nat.le_of_lt_succ (amount_literalCommand_lt v k amount)
    · have knows := (Emits.operateLiteral v k ne).knows opened (.operate foreign op k s) client.isPrimed_new
        initialized
      have computed : u.runAll p [v.literalCommand op k] =
          u.setScore v (Int32.ofInt (op.meaning (u.score v).toInt k.toInt)) := by
        rw [World.runAll_cons, World.runAll_nil, after_literalCommand ne knows, ScoreOp.apply_eq_ofInt]
      refine ⟨computed, fun y t' ds other value q => ?_⟩
      rw [other.unique (byVariable op y), runs ne, computed, value]
  · exact ⟨_, _, byVariable op y, List.forall_mem_singleton.2 rfl, runs ne y⟩

/-- Taking the least number away is adding it, by way of a constant. -/
theorem literal_operands_agree_least :
    let s := (perform (numberClient 5) {}).2
    Client (numberClient 5) {} ∧ Variable.IsForeign ⟨"v"⟩ ∧ s.scopes ≠ [] ∧ ScoreOp.sub ≠ .swap ∧
      ∃ t cs, s.Gives (Variable.operate ⟨"v"⟩ .sub (.literal Int32.minValue)) () t cs ∧
        ∀ (w : World) (p q : Site), let u := (w.runAll p t.init).setScore ⟨"v"⟩ 5
          u.runAll q cs = u.setScore ⟨"v"⟩ (-2147483643) := by
  intro s
  have client : Client (numberClient 5) {} := .bind (.enter _) fun _ _ _ => .create isForeign_v _ _
  have opened : s.scopes ≠ [] := by decide
  obtain ⟨t, cs, gives, -, runs⟩ :=
    (literal_operands_agree client isForeign_v opened).1 .sub (by decide) Int32.minValue
  refine ⟨client, isForeign_v, opened, by decide, t, cs, gives, fun w p q => ?_⟩
  intro u
  have initialized : u.IsInitialized t := .of_foreign isForeign_v w p 5
  rw [(runs u q initialized).1, World.score_setScore_self]
  rfl

end BlockComputer
