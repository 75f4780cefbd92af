/-!
Decimal fractions, and the shortest one that stands for a binary floating-point number.

`Decimal.ofFloat` has the fewest digits that read back as the same number, and among those it is the
nearest to it. It walks down the decimal grids, and on each tries the two neighbours of the number.
-/

namespace BlockComputer

structure Decimal where
  negative : Bool := false
  digits : Nat
  exponent : Int := 0
deriving DecidableEq, Repr

namespace Decimal

def one : Decimal := ⟨false, 1, 0⟩

def render (d : Decimal) : String :=
  let sign := if d.negative then "-" else ""
  let digits := (toString d.digits).toList
  let body :=
    if 0 ≤ d.exponent then digits ++ List.replicate d.exponent.toNat '0'
    else
      let places := (-d.exponent).toNat
      let filled := List.replicate (places + 1 - digits.length) '0' ++ digits
      let whole := filled.length - places
      filled.take whole ++ '.' :: filled.drop whole
  sign ++ String.ofList body

/-- A positive number of the form `mantissa · 2 ^ exponent`, and the numbers that round to it: those
between `mantissa - below / 4` and `mantissa + 1 / 2` units, the two ends included when `closed`. -/
structure Binary where
  mantissa : Nat
  exponent : Int
  below : Nat
  closed : Bool

def Binary.ofBits (bits : Nat) : Binary :=
  let biased : Nat := bits / Nat.pow 2 52 % Nat.pow 2 11
  let fraction : Nat := bits % Nat.pow 2 52
  if biased = 0 then ⟨fraction, -1074, 2, fraction % 2 == 0⟩
  else ⟨Nat.pow 2 52 + fraction, (biased : Int) - 1075, if fraction = 0 ∧ 1 < biased then 1 else 2,
    fraction % 2 == 0⟩

def power (base : Nat) (exponent : Int) : Nat :=
  Nat.pow base exponent.toNat

/-- The nearer of the number's two neighbours on the grid of multiples of `10 ^ place`, if one of
them reads back as the number; of two that are equally near, the greater. -/
def onGrid? (b : Binary) (place : Int) : Option Nat :=
  let unit := power 2 (b.exponent - 2) * power 10 (-place)
  let step := power 10 place * power 2 (2 - b.exponent)
  let value := 4 * b.mantissa * unit
  let low := value - b.below * unit
  let high := value + 2 * unit
  let readsBack (n : Nat) : Bool :=
    if b.closed then low ≤ n && n ≤ high else low < n && n < high
  let floor := value / step
  let lower := floor * step
  let upper := lower + step
  let lowerHit := floor != 0 && readsBack lower
  if lowerHit && readsBack upper then
    some (if value - lower < upper - value then floor else floor + 1)
  else if lowerHit then some floor
  else if readsBack upper then some (floor + 1)
  else none

/-- The shortest decimal for a positive number. Seventeen digits always suffice; the search starts at
most three places above the first of them. -/
def shortest (b : Binary) : Nat × Int :=
  let top : Int := ((Nat.log2 b.mantissa + 1 : Nat) + b.exponent) * 30103 / 100000 + 1
  let hit := (List.range 21).findSome? fun i =>
    (onGrid? b (top - (i : Nat))).map fun digits => (digits, top - (i : Nat))
  hit.getD (0, 0)

def ofFloat (x : Float) : Decimal :=
  let bits := x.toBits.toNat
  let negative := bits / Nat.pow 2 63 == 1
  let b := Binary.ofBits bits
  if b.mantissa = 0 then ⟨negative, 0, 0⟩
  else
    let (digits, exponent) := shortest b
    ⟨negative, digits, exponent⟩

end Decimal

end BlockComputer
