/-!
Scores: the integer variables of the running machine.

A variable is a score holder in one fixed objective and holds a 32-bit integer. Operators work in
place; comparisons and ranges are tested by conditions.
-/

namespace BlockComputer

def objective : String := "vars"

structure Variable where
  name : String
deriving DecidableEq, Repr

def Variable.render (v : Variable) : String :=
  s!"{v.name} {objective}"

/-- The operators on two scores; all but the last write the left one only. -/
inductive ScoreOp where
  | set
  | add
  | sub
  | mul
  | div
  | mod
  | min
  | max
  | swap
deriving DecidableEq, Repr

def ScoreOp.symbol : ScoreOp → String
  | .set => "="
  | .add => "+="
  | .sub => "-="
  | .mul => "*="
  | .div => "/="
  | .mod => "%="
  | .min => "<"
  | .max => ">"
  | .swap => "><"

inductive Source where
  | variable (v : Variable)
  | literal (value : Int32)
deriving DecidableEq, Repr

instance : Coe Variable Source := ⟨.variable⟩

inductive Comparison where
  | lt
  | le
  | eq
  | ge
  | gt
deriving DecidableEq, Repr

def Comparison.symbol : Comparison → String
  | .lt => "<"
  | .le => "<="
  | .eq => "="
  | .ge => ">="
  | .gt => ">"

/-- A range of integers, closed at both ends and bounded at one of them at least. -/
inductive Range where
  | atMost (max : Int)
  | atLeast (min : Int)
  | between (min max : Int)
deriving DecidableEq, Repr

namespace Range

def exactly (n : Int) : Range := .between n n

def min? : Range → Option Int
  | .atMost _ => none
  | .atLeast n => some n
  | .between n _ => some n

def max? : Range → Option Int
  | .atMost n => some n
  | .atLeast _ => none
  | .between _ n => some n

def contains : Range → Int → Bool
  | .atMost high, n => n ≤ high
  | .atLeast low, n => low ≤ n
  | .between low high, n => low ≤ n && n ≤ high

def render : Range → String
  | .atMost high => s!"..{high}"
  | .atLeast low => s!"{low}.."
  | .between low high => if low = high then toString low else s!"{low}..{high}"

end Range

def Comparison.range (c : Comparison) (k : Int32) : Range :=
  match c with
  | .lt => .atMost (k.toInt - 1)
  | .le => .atMost k.toInt
  | .eq => .exactly k.toInt
  | .ge => .atLeast k.toInt
  | .gt => .atLeast (k.toInt + 1)

end BlockComputer
