import BlockComputer.Proofs.Emission.Basic
import BlockComputer.Score.Vector

/-!
What arithmetic steps emit: the commands, and the constants they read.
-/

namespace BlockComputer

namespace Variable

def addCommand (v : Variable) (amount : Int) : Command :=
  if 0 ≤ amount then .addScore v amount.natAbs else .removeScore v amount.natAbs

def sliceCommands (v : Variable) (skip length : Nat) (last : Bool) : List Command :=
  (if 0 < skip then [.operateScore v .div (constantNamed (Int32.ofNat (2 ^ skip)))] else [])
    ++ if last then [] else [.operateScore v .mod (constantNamed (Int32.ofNat (2 ^ length)))]

def sliceConstants (skip length : Nat) (last : Bool) : List Int32 :=
  (if 0 < skip then [Int32.ofNat (2 ^ skip)] else [])
    ++ if last then [] else [Int32.ofNat (2 ^ length)]

def operateCommand (v : Variable) (op : ScoreOp) : Source → Command
  | .variable u => .operateScore v op u
  | .literal k =>
    match op with
    | .set => .setScore v k
    | .add => v.addCommand k.toInt
    | .sub => v.addCommand (-k.toInt)
    | _ => .operateScore v op (constantNamed k)

def operateConstants (op : ScoreOp) : Source → List Int32
  | .variable _ => []
  | .literal k =>
    match op with
    | .set | .add | .sub => []
    | _ => [k]

end Variable

def Source.isSmall : Source → Bool
  | .variable _ => true
  | .literal k => k.toInt.natAbs < 2 ^ 31

namespace Emits

variable (v u : Variable) (k : Int32)

theorem setTo : Emits (v.setTo k) () [.setScore v k] [] :=
  emit _

theorem operateVariable (op : ScoreOp) :
    Emits (v.operate op (.variable u)) () [.operateScore v op u] [] :=
  emit _

theorem assign : Emits (v.assign (.variable u)) () [.operateScore v .set u] [] :=
  emit _

theorem operateConstant (op : ScoreOp) :
    Emits (BlockComputer.constant k >>= fun c => v.operateBy op c) () [.operateScore v op (constantNamed k)] [k] :=
  (constant k).bind (emit _)

theorem operateMul :
    Emits (v.operate .mul (.literal k)) () [.operateScore v .mul (constantNamed k)] [k] :=
  operateConstant v k .mul

theorem operateDiv :
    Emits (v.operate .div (.literal k)) () [.operateScore v .div (constantNamed k)] [k] :=
  operateConstant v k .div

theorem operateMod :
    Emits (v.operate .mod (.literal k)) () [.operateScore v .mod (constantNamed k)] [k] :=
  operateConstant v k .mod

theorem addNumber {amount : Int} (small : amount.natAbs < 2 ^ 31) :
    Emits (v.addNumber amount) () [v.addCommand amount] [] := by
  unfold Variable.addNumber
  rw [if_pos (show amount.natAbs < Nat.pow 2 31 from small)]
  exact emit _

theorem operateAdd (small : k.toInt.natAbs < 2 ^ 31) :
    Emits (v.operate .add (.literal k)) () [v.addCommand k.toInt] [] :=
  addNumber v small

theorem operateSub (small : (-k.toInt).natAbs < 2 ^ 31) :
    Emits (v.operate .sub (.literal k)) () [v.addCommand (-k.toInt)] [] :=
  addNumber v small

theorem operate {op : ScoreOp} {source : Source} (ne : op ≠ .swap) (small : source.isSmall) :
    Emits (v.operate op source) () [v.operateCommand op source]
      (Variable.operateConstants op source) := by
  cases source with
  | «variable» u => exact operateVariable v u op
  | literal k =>
    have bound : k.toInt.natAbs < 2 ^ 31 := of_decide_eq_true small
    cases op with
    | set => exact setTo v k
    | add => exact operateAdd v k bound
    | sub => exact operateSub v k (by rwa [Int.natAbs_neg])
    | swap => exact absurd rfl ne
    | mul | div | mod | min | max => exact operateConstant v k _

theorem bitslice (skip length : UInt32) (last : Bool) (pos : length ≠ 0)
    (top : skip.toNat + length.toNat ≤ 31) :
    Emits (v.bitslice skip length last) () (v.sliceCommands skip.toNat length.toNat last)
      (Variable.sliceConstants skip.toNat length.toNat last) := by
  have remainder : Emits
      (if (!last) = true then v.operate .mod (.literal (Int32.ofNat (2 ^ length.toNat)))
        else Pure.pure ()) ()
      (if last then [] else [.operateScore v .mod (constantNamed (Int32.ofNat (2 ^ length.toNat)))])
      (if last then [] else [Int32.ofNat (2 ^ length.toNat)]) := by
    cases last with
    | true => exact pure ()
    | false => exact operateMod v _
  have inRange : ¬ Nat.pow 2 32 ≤ skip.toNat + length.toNat :=
    Nat.not_le.2 (Nat.lt_of_le_of_lt top (by decide))
  have valid : ¬ (length = 0 ∨ 31 < skip.toNat + length.toNat) := by
    rintro (zero | high)
    · exact pos zero
    · omega
  unfold Variable.bitslice Variable.sliceCommands Variable.sliceConstants
  simp only [inRange, valid, if_false]
  by_cases skips : 0 < skip
  · have skips' : 0 < skip.toNat := skips
    simp only [skips, skips', if_true]
    exact (operateDiv v _).seq remainder
  · have skips' : ¬ 0 < skip.toNat := skips
    simp only [skips, skips', if_false]
    exact remainder

theorem signExtend (width : UInt32) (pos : width ≠ 0) (high : width ≤ 30) :
    Emits (v.signExtend width) ()
      [(v.addCommand (-(2 ^ width.toNat : Nat))).guarded
        [.ifHolds (.ofComparison v .ge (.literal (Int32.ofNat (2 ^ (width.toNat - 1)))))]] [] := by
  have valid : ¬ (width = 0 ∨ 30 < width) := by
    rintro (zero | wide)
    · exact pos zero
    · exact absurd high (UInt32.not_le.2 wide)
  have positive : width.toNat ≠ 0 := fun zero => pos (UInt32.toNat_inj.1 zero)
  have low : width.toNat ≤ 30 := high
  have power : 2 ^ width.toNat ≤ 2 ^ 30 := Nat.pow_le_pow_right (by decide) low
  have range : (Int32.ofNat (2 ^ (width.toNat - 1)) * 2).toInt = (2 ^ width.toNat : Nat) := by
    have double : Int32.ofNat (2 ^ (width.toNat - 1)) * 2 = Int32.ofNat (2 ^ width.toNat) := by
      rw [← Nat.sub_add_cancel (Nat.one_le_iff_ne_zero.2 positive), Nat.pow_succ, Int32.ofNat_mul]
      rfl
    rw [double, Int32.toInt_ofNat_of_lt (by omega)]
  have small : (-(Int32.ofNat (2 ^ (width.toNat - 1)) * 2).toInt).natAbs < 2 ^ 31 := by
    rw [range, Int.natAbs_neg, Int.natAbs_natCast]
    omega
  have block := (operateSub v _ small).runIf
    (.ofComparison v .ge (.literal (Int32.ofNat (2 ^ (width.toNat - 1)))))
  rw [range] at block
  unfold Variable.signExtend
  simp only [valid, if_false]
  exact block.bind (f := fun _ => Pure.pure ()) (pure ())

end Emits

end BlockComputer
