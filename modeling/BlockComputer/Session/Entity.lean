import BlockComputer.Score.Vector

/-!
Steps on entities. Only an entity can be moved to a position known when the machine runs, so every
access through such a position goes by way of one.
-/

namespace BlockComputer

variable {m : Type → Type} [Monad m]

def newEntity (kind : String) : EmitT m Entity :=
  return { kind, tag := ← newTag }

/-- A marker with a tag of its own. A marker stays exactly where it is put. -/
def newMarker : EmitT m Entity :=
  newEntity Entity.marker

namespace Entity

/-- Summons the entity where the command runs, unless it exists already. -/
def create (e : Entity) : EmitT m Unit :=
  emitUnder [.unlessHolds (.present e)] (.summon e)

def destroy (e : Entity) : EmitT m Unit :=
  emit (.kill e)

def storeData (e : Entity) (path : String) (value : Variable) (type : NumberType) : EmitT m Unit :=
  emitUnder [.storeResult (.entity e path type .one)] (.getScore value)

def axisPath (axis : Nat) : String :=
  s!"Pos[{axis}]"

def moveTo (e : Entity) (target : Vector3) : EmitT m Unit := do
  e.storeData (axisPath 0) target.x .double
  e.storeData (axisPath 1) target.y .double
  e.storeData (axisPath 2) target.z .double

def teleport (e : Entity) (target : Position) : EmitT m Unit :=
  emit (.teleport e target)

end Entity

end BlockComputer
