import BlockComputer.Listing
import BlockComputer.Machine.Counts
import Mathlib.Data.Rat.Defs
import Mathlib.Logic.Function.Basic

/-!
The world that commands run in: blocks by place, scores by holder, and the entities that exist.

A block is a command block or a barrel with the counts of its first two slots; every other place is
air. Scores wrap at 32 bits, quotients are rounded down and a zero divisor leaves the score alone.
Entities stand at rational points, so a centre of a block and its corner are told apart.
-/

namespace BlockComputer

structure Site where
  x : Int
  y : Int
  z : Int
deriving DecidableEq, Repr

structure Point where
  x : ℚ
  y : ℚ
  z : ℚ
deriving DecidableEq, Repr

namespace Site

def shift (p : Site) (n : Nat) : Site :=
  { p with x := p.x + n }

def centre (p : Site) : Point :=
  ⟨p.x + 1 / 2, p.y + 1 / 2, p.z + 1 / 2⟩

@[simp] theorem shift_zero (p : Site) : p.shift 0 = p := by
  simp [shift]

@[simp] theorem shift_shift (p : Site) (m n : Nat) : (p.shift m).shift n = p.shift (m + n) := by
  simp [shift, Int.add_assoc]

theorem shift_inj {p : Site} {m n : Nat} : p.shift m = p.shift n ↔ m = n := by
  simp only [shift, mk.injEq, and_self, and_true]
  omega

end Site

namespace Point

def site (q : Point) : Site :=
  ⟨q.x.floor, q.y.floor, q.z.floor⟩

def setAxis (q : Point) (axis : Nat) (value : ℚ) : Point :=
  match axis with
  | 0 => { q with x := value }
  | 1 => { q with y := value }
  | _ => { q with z := value }

end Point

theorem floor_half (n : Int) : ((n : ℚ) + 1 / 2).floor = n := by
  have half : (1 / 2 : ℚ).floor = 0 := by decide +kernel
  rw [Rat.add_comm, Rat.floor_add_intCast, half, Int.zero_add]

@[simp] theorem Site.site_centre (p : Site) : p.centre.site = p := by
  simp only [centre, Point.site, floor_half]

def Axis.from (a : Axis) (origin : ℚ) : Int :=
  if a.relative then origin.floor + a.value.toInt else a.value.toInt

def Axis.exactFrom (a : Axis) (origin : ℚ) : ℚ :=
  if a.relative then origin + a.value.toInt else a.value.toInt

namespace Position

def siteFrom (p : Position) (origin : Point) : Site :=
  ⟨p.x.from origin.x, p.y.from origin.y, p.z.from origin.z⟩

def pointFrom (p : Position) (origin : Point) : Point :=
  ⟨p.x.exactFrom origin.x, p.y.exactFrom origin.y, p.z.exactFrom origin.z⟩

def site (p : Position) : Site :=
  ⟨p.x.value.toInt, p.y.value.toInt, p.z.value.toInt⟩

@[simp] theorem siteFrom_absolute (x y z : Int32) (origin : Point) :
    (absolute x y z).siteFrom origin = ⟨x.toInt, y.toInt, z.toInt⟩ := by
  simp [siteFrom, absolute, Axis.from]

theorem siteFrom_relative (x y z : Int32) (origin : Point) :
    (relative x y z).siteFrom origin =
      ⟨origin.site.x + x.toInt, origin.site.y + y.toInt, origin.site.z + z.toInt⟩ := by
  simp [siteFrom, relative, Axis.from, Point.site]

end Position

def Decimal.value (d : Decimal) : ℚ :=
  (if d.negative then -1 else 1) * d.digits * (10 : ℚ) ^ d.exponent

def ScoreOp.apply (op : ScoreOp) (a b : Int32) : Int32 :=
  match op with
  | .set | .swap => b
  | .add => a + b
  | .sub => a - b
  | .mul => a * b
  | .div => if b = 0 then a else Int32.ofInt (a.toInt.fdiv b.toInt)
  | .mod => if b = 0 then a else Int32.ofInt (a.toInt.fmod b.toInt)
  | .min => if a ≤ b then a else b
  | .max => if a ≤ b then b else a

def Comparison.holds (c : Comparison) (a b : Int32) : Bool :=
  match c with
  | .lt => a < b
  | .le => a ≤ b
  | .eq => a = b
  | .ge => b ≤ a
  | .gt => b < a

namespace Machine.Counts

def get? (c : Counts) (slot : Nat) : Option Int32 :=
  match slot with
  | 0 => some c.high
  | 1 => some c.low
  | _ => none

def set (c : Counts) (slot : Nat) (count : Int32) : Counts :=
  match slot with
  | 0 => { c with high := count }
  | 1 => { c with low := count }
  | _ => c

end Machine.Counts

inductive Block where
  | unit (kind : UnitKind) (command : Command)
  | barrel (counts : Machine.Counts)
deriving DecidableEq, Repr

def Filling.block : Filling → Block
  | .barrel => .barrel ⟨1, 1⟩
  | .idleUnit => .unit .chain .placeholder

structure Being where
  tag : String
  position : Point
deriving DecidableEq, Repr

namespace Being

def moveFirst (tag : String) (move : Point → Point) : List Being → List Being
  | [] => []
  | e :: others =>
    if e.tag = tag then { e with position := move e.position } :: others
    else e :: moveFirst tag move others

@[simp] theorem map_tag_moveFirst (tag : String) (move : Point → Point) (es : List Being) :
    (moveFirst tag move es).map Being.tag = es.map Being.tag := by
  induction es with
  | nil => rfl
  | cons e others ih =>
    by_cases h : e.tag = tag
    · simp [moveFirst, h]
    · simp [moveFirst, h, ih]

def first? (tag : String) (es : List Being) : Option Being :=
  es.find? (·.tag == tag)

theorem first?_moveFirst_self (tag : String) (move : Point → Point) (es : List Being) :
    first? tag (moveFirst tag move es) =
      (first? tag es).map fun e => { e with position := move e.position } := by
  induction es with
  | nil => rfl
  | cons e others ih =>
    by_cases h : e.tag = tag
    · simp [moveFirst, first?, h]
    · simpa [moveFirst, first?, h] using ih

end Being

structure World where
  blocks : Site → Option Block := fun _ => none
  scores : Variable → Option Int32 := fun _ => none
  entities : List Being := []
  shown : List String := []

namespace World

def score (w : World) (v : Variable) : Int32 :=
  (w.scores v).getD 0

def setScore (w : World) (v : Variable) (value : Int32) : World :=
  { w with scores := Function.update w.scores v (some value) }

def resetScore (w : World) (v : Variable) : World :=
  { w with scores := Function.update w.scores v none }

def setBlock (w : World) (p : Site) (b : Block) : World :=
  { w with blocks := Function.update w.blocks p (some b) }

def locate (w : World) (e : Entity) : Option Point :=
  (Being.first? e.tag w.entities).map Being.position

def moveEntity (w : World) (tag : String) (move : Point → Point) : World :=
  { w with entities := Being.moveFirst tag move w.entities }

def count? (w : World) (p : Site) (slot : Nat) : Option Int32 :=
  match w.blocks p with
  | some (.barrel counts) => counts.get? slot
  | _ => none

def setCount (w : World) (p : Site) (slot : Nat) (count : Int32) : World :=
  match w.blocks p with
  | some (.barrel counts) => w.setBlock p (.barrel (counts.set slot count))
  | _ => w

def announce (w : World) (text : String) : World :=
  { w with shown := w.shown ++ [text] }

@[simp] theorem score_setScore_self (w : World) (v : Variable) (n : Int32) :
    (w.setScore v n).score v = n := by
  simp [score, setScore]

theorem score_setScore_of_ne (w : World) {u v : Variable} (ne : u ≠ v) (n : Int32) :
    (w.setScore v n).score u = w.score u := by
  simp [score, setScore, Function.update_of_ne ne]

@[simp] theorem blocks_setScore (w : World) (v : Variable) (n : Int32) :
    (w.setScore v n).blocks = w.blocks := rfl

@[simp] theorem entities_setScore (w : World) (v : Variable) (n : Int32) :
    (w.setScore v n).entities = w.entities := rfl

@[simp] theorem locate_setScore (w : World) (v : Variable) (n : Int32) (e : Entity) :
    (w.setScore v n).locate e = w.locate e := rfl

@[simp] theorem score_moveEntity (w : World) (tag : String) (move : Point → Point) (v : Variable) :
    (w.moveEntity tag move).score v = w.score v := rfl

@[simp] theorem blocks_moveEntity (w : World) (tag : String) (move : Point → Point) :
    (w.moveEntity tag move).blocks = w.blocks := rfl

@[simp] theorem blocks_setBlock_self (w : World) (p : Site) (b : Block) :
    (w.setBlock p b).blocks p = some b :=
  Function.update_self _ _ _

theorem blocks_setBlock_of_ne (w : World) {p q : Site} (ne : q ≠ p) (b : Block) :
    (w.setBlock p b).blocks q = w.blocks q :=
  Function.update_of_ne ne _ _

def place (blocks : Site → Option Block) (u : PlacedUnit) : Site → Option Block :=
  Function.update blocks u.position.site (some (.unit u.kind u.command))

/-- The world of a listing, before any of its chains has run. Of two units at one site the later one
stands there. -/
def ofListing (listing : Listing) : World where
  blocks := listing.foldl place fun _ => none

end World

end BlockComputer
