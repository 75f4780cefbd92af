/-!
The names of the registers that a program can address. A register's index in its list is the number
that instructions hold.
-/

namespace BlockComputer.Register

def generalNames : List String := ["a0", "a1", "a2", "t0", "t1", "s0", "s1", "s2"]

def scratchNames : List String := ["x0", "x1", "x2", "x3", "y0", "y1", "y2", "y3"]

def index? (names : List String) (name : String) : Option Nat :=
  names.findIdx? (· == name)

end BlockComputer.Register
