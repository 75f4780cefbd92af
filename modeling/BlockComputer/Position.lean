import BlockComputer.Error

/-!
Positions of blocks. Each axis is a 32-bit number, absolute or relative to the block that runs the
command; sums that leave 32 bits are a crash.
-/

namespace BlockComputer

structure Axis where
  value : Int32
  relative : Bool := false
deriving DecidableEq, Repr

namespace Axis

def render (a : Axis) : String :=
  if a.relative then
    if a.value = 0 then "~" else s!"~{a.value.toInt}"
  else toString a.value.toInt

/-- As a point: an absolute coordinate is written with a decimal, so that it means the corner of the
block and not its centre. -/
def renderExact (a : Axis) : String :=
  if a.relative then a.render else s!"{a.value.toInt}.0"

/-- The sum is relative if one of the two is. -/
def add (a b : Axis) : Except Failure Axis := do
  return ⟨← narrow (a.value.toInt + b.value.toInt), a.relative || b.relative⟩

def sub (a b : Axis) : Except Failure Axis := do
  return ⟨← narrow (a.value.toInt - b.value.toInt), a.relative || b.relative⟩

end Axis

structure Position where
  x : Axis
  y : Axis
  z : Axis
deriving DecidableEq, Repr

namespace Position

def absolute (x y z : Int32) : Position :=
  ⟨⟨x, false⟩, ⟨y, false⟩, ⟨z, false⟩⟩

def relative (x y z : Int32) : Position :=
  ⟨⟨x, true⟩, ⟨y, true⟩, ⟨z, true⟩⟩

def east : Position := absolute 1 0 0

def west : Position := absolute (-1) 0 0

def up : Position := absolute 0 1 0

def down : Position := absolute 0 (-1) 0

def south : Position := absolute 0 0 1

def north : Position := absolute 0 0 (-1)

def here : Position := relative 0 0 0

def isAbsolute (p : Position) : Bool :=
  !(p.x.relative || p.y.relative || p.z.relative)

def render (p : Position) : String :=
  s!"{p.x.render} {p.y.render} {p.z.render}"

def renderExact (p : Position) : String :=
  s!"{p.x.renderExact} {p.y.renderExact} {p.z.renderExact}"

def renderValues (p : Position) : String :=
  s!"{p.x.value.toInt} {p.y.value.toInt} {p.z.value.toInt}"

def add (p q : Position) : Except Failure Position := do
  return ⟨← p.x.add q.x, ← p.y.add q.y, ← p.z.add q.z⟩

def sub (p q : Position) : Except Failure Position := do
  return ⟨← p.x.sub q.x, ← p.y.sub q.y, ← p.z.sub q.z⟩

end Position

end BlockComputer
