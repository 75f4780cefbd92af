import BlockComputer.Error

/-!
Reading and writing a field of a sixteen-bit cell.

A value fits a field of width `w` when it lies in `-2 ^ (w - 1) .. 2 ^ w - 1`: it may be meant as an
unsigned number or as two's complement, and is stored modulo `2 ^ w`.
-/

namespace BlockComputer.Assembly.Field

def isInCell (f : Field) : Bool :=
  0 < f.width && f.skip + f.width ≤ 16

/-- The value, read as unsigned or as two's complement, fits the field's width. -/
def admits (f : Field) (value : Int) : Bool :=
  -(Int.pow 2 f.width / 2) ≤ value && value < Int.pow 2 f.width

def read (f : Field) (cell : Nat) : Nat :=
  cell / Nat.pow 2 f.skip % Nat.pow 2 f.width

def write (f : Field) (cell raw : Nat) : Nat :=
  cell / Nat.pow 2 (f.skip + f.width) * Nat.pow 2 (f.skip + f.width) + raw * Nat.pow 2 f.skip
    + cell % Nat.pow 2 f.skip

def get (f : Field) (word : UInt16) : Except Failure UInt16 :=
  if f.isInCell then .ok (UInt16.ofNat (f.read word.toNat)) else .error .crash

/-- The word with a value in the field. The value's range is checked before the field's place, in
signed 64-bit arithmetic: 64 bits cannot be counted there, and no value is below the limit of 63. -/
def set (f : Field) (word : UInt16) (value : Int) : Except Failure UInt16 :=
  if 64 ≤ f.width then .error .crash
  else if f.width = 63 ∨ ¬ f.admits value then .error (.error (.fieldOverflow value f.width))
  else if f.isInCell then
    .ok (UInt16.ofNat (f.write word.toNat (value % Int.pow 2 f.width).toNat))
  else .error .crash

end BlockComputer.Assembly.Field
