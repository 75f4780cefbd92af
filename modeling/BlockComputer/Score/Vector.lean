import BlockComputer.Score.Arithmetic

/-!
Three variables that hold a position known only when the machine runs.
-/

namespace BlockComputer

structure Vector3 where
  name : String
  x : Variable
  y : Variable
  z : Variable
deriving DecidableEq, Repr

namespace Vector3

variable {m : Type → Type} [Monad m]

def create (name : String) (initial : Position) : EmitT m Vector3 := do
  let x ← Variable.create s!"{name}_x" initial.x.value
  let y ← Variable.create s!"{name}_y" initial.y.value
  let z ← Variable.create s!"{name}_z" initial.z.value
  return { name, x, y, z }

def release (v : Vector3) : EmitT m Unit := do
  v.x.release
  v.y.release
  v.z.release

def operate (v : Vector3) (op : ScoreOp) (w : Vector3) : EmitT m Unit := do
  v.x.operate op w.x
  v.y.operate op w.y
  v.z.operate op w.z

def assign (v : Vector3) (position : Position) : EmitT m Unit := do
  v.x.setTo position.x.value
  v.y.setTo position.y.value
  v.z.setTo position.z.value

/-- Adds an offset, leaving out the axes on which it is zero. -/
def offset (v : Vector3) (amount : Position) : EmitT m Unit := do
  let add (axis : Variable) (n : Int32) : EmitT m Unit :=
    if n = 0 then return else axis.operate .add (.literal n)
  add v.x amount.x.value
  add v.y amount.y.value
  add v.z amount.z.value

end Vector3

end BlockComputer
