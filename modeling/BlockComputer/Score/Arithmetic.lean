import BlockComputer.Session.Guard

/-!
Steps on variables: creating and releasing them, and lowering arithmetic to score commands.

Numbers can be set, added and taken away directly; every other operation reads them from the score of a
constant. Adding and taking away only accept amounts up to `2 ^ 31 - 1`, so the one greater amount goes
through a constant as well.
-/

namespace BlockComputer.Variable

variable {m : Type → Type} [Monad m]

def setTo (v : Variable) (value : Int32) : EmitT m Unit :=
  emit (.setScore v value)

def create (name : String) (value : Int32) : EmitT m Variable := do
  registerName name
  let v : Variable := ⟨name⟩
  v.setTo value
  return v

def temporary : EmitT m Variable := do
  create (← freshName "var_") 0

def release (v : Variable) : EmitT m Unit := do
  freeName v.name
  emit (.resetScore v)

def operateBy (v : Variable) (op : ScoreOp) (source : Variable) : EmitT m Unit :=
  emit (.operateScore v op source)

def addNumber (v : Variable) (amount : Int) : EmitT m Unit := do
  if amount.natAbs < Nat.pow 2 31 then
    emit (if 0 ≤ amount then .addScore v amount.natAbs else .removeScore v amount.natAbs)
  else v.operateBy .add (← constant (Int32.ofInt amount))

def operate (v : Variable) (op : ScoreOp) : Source → EmitT m Unit
  | .variable w => v.operateBy op w
  | .literal k =>
    match op with
    | .set => v.setTo k
    | .add => v.addNumber k.toInt
    | .sub => v.addNumber (-k.toInt)
    | .swap => reject (.literalSwap v.name k)
    | _ => do v.operateBy op (← constant k)

def assign (v : Variable) (source : Source) : EmitT m Unit :=
  v.operate .set source

def cloned (v : Variable) : EmitT m Variable := do
  let copy ← temporary
  copy.assign v
  return copy

def operated (v : Variable) (op : ScoreOp) (source : Source) : EmitT m Variable := do
  let copy ← v.cloned
  copy.operate op source
  return copy

/-- Keeps `length` bits from bit `skip` on, in place. With `last` the caller promises that no bit above
them is set, so the remainder can be left out. Bits and place are 32-bit numbers, and so is their sum:
a greater one is a crash. -/
def bitslice (v : Variable) (skip length : UInt32) (last : Bool) : EmitT m Unit := do
  let top := skip.toNat + length.toNat
  if Nat.pow 2 32 ≤ top then throw .crash
  if length = 0 ∨ 31 < top then reject (.invalidWidth top)
  if 0 < skip then v.operate .div (.literal (Int32.ofNat (Nat.pow 2 skip.toNat)))
  if !last then v.operate .mod (.literal (Int32.ofNat (Nat.pow 2 length.toNat)))

def sliced (v : Variable) (skip length : UInt32) (last : Bool) : EmitT m Variable := do
  let copy ← v.cloned
  copy.bitslice skip length last
  return copy

def signExtend (v : Variable) (width : UInt32) : EmitT m Unit := do
  if width = 0 ∨ 30 < width then reject (.invalidWidth width.toNat)
  let half := Int32.ofNat (Nat.pow 2 (width.toNat - 1))
  let _ ← runIf (.ofComparison v .ge (.literal half)) (v.operate .sub (.literal (half * 2)))

def signExtended (v : Variable) (width : UInt32) : EmitT m Variable := do
  let copy ← v.cloned
  copy.signExtend width
  return copy

end BlockComputer.Variable
