import BlockComputer.Text.Numeral
import BlockComputer.Toml.Space

/-!
Whole numbers and fractions. An underscore may stand between two digits. Whole numbers are signed 64-bit
integers; a positive fraction must not be beyond the greatest double-precision number.
-/

namespace BlockComputer.Toml

open Reader

/-- Digits of a class, with single underscores between them; the underscores are left out. -/
def digitRun (p : Char → Bool) : Reader (List Char) := do
  let first ← span1 p
  let others ← many do
    char '_'
    span1 p
  return first ++ others.flatten

def isDigit (c : Char) : Bool :=
  (Text.digit? c).isSome

def valueOf (digits : List Char) : Nat :=
  (Text.natural? digits).getD 0

def sign : Reader Bool := do
  let c ← option (satisfy fun c => c == '+' || c == '-')
  return c == some '-'

def decimal : Reader (Bool × List Char) := do
  let negative ← sign
  let digits ← (do char '0'; return ['0']) <|> digitRun isDigit
  return (negative, digits)

def inBase (mark : Char) (base : Nat) : Reader Int := do
  exactly ['0', mark]
  let digits ← digitRun fun c => (Text.digitIn? base c).isSome
  let n : Nat := digits.foldl (fun n c => base * n + (Text.digitIn? base c).getD 0) 0
  return n

def integer : Reader Int := do
  let n ← inBase 'x' 16 <|> inBase 'o' 8 <|> inBase 'b' 2 <|> (do
    let (negative, digits) ← decimal
    return if negative then -(valueOf digits : Int) else valueOf digits)
  if Text.isLong n then return n else failure

/-- The number `digits · 10 ^ exponent` rounds to infinity. -/
def overflows (digits : Nat) (exponent : Int) : Bool :=
  let places : Int := (toString digits).length + exponent
  let limit := Nat.pow 2 1024 - Nat.pow 2 970
  if digits = 0 ∨ places < 309 then false
  else if 310 < places then true
  else if 0 ≤ exponent then limit ≤ digits * Nat.pow 10 exponent.toNat
  else limit * Nat.pow 10 (-exponent).toNat ≤ digits

def fraction : Reader (List Char) := do
  char '.'
  digitRun isDigit

def exponent : Reader Int := do
  let _ ← satisfy fun c => c == 'e' || c == 'E'
  let negative ← sign
  let digits ← digitRun isDigit
  return if negative then -(valueOf digits : Int) else valueOf digits

def finite : Reader Unit := do
  let (negative, whole) ← decimal
  let places ← option fraction
  let power ← option exponent
  if places.isNone && power.isNone then failure
  let behind := places.getD []
  if !negative && overflows (valueOf (whole ++ behind)) (power.getD 0 - behind.length) then failure

def float : Reader Unit :=
  finite <|> do
    let _ ← sign
    exactly ['i', 'n', 'f'] <|> exactly ['n', 'a', 'n']

end BlockComputer.Toml
