/-!
Whole numbers as text: digits of a base filled up with zeros, and signed decimals read back.
-/

namespace BlockComputer.Text

def widthLimit : Nat := 65535

def padded (base width n : Nat) : String :=
  let digits := Nat.toDigits base n
  String.ofList (List.replicate (width - digits.length) '0' ++ digits)

/-- The value of one decimal digit; only the ten ASCII digits count. -/
def digit? (c : Char) : Option Nat :=
  if '0' ≤ c ∧ c ≤ '9' then some (c.toNat - 48) else none

def digitIn? (base : Nat) (c : Char) : Option Nat :=
  let value? :=
    if '0' ≤ c ∧ c ≤ '9' then some (c.toNat - 48)
    else if 'a' ≤ c ∧ c ≤ 'f' then some (c.toNat - 87)
    else if 'A' ≤ c ∧ c ≤ 'F' then some (c.toNat - 55)
    else none
  value?.filter (· < base)

def readDigits (value : Nat) : List Char → Option Nat
  | [] => some value
  | c :: rest =>
    match digit? c with
    | none => none
    | some d => readDigits (10 * value + d) rest

def natural? : List Char → Option Nat
  | [] => none
  | digits => readDigits 0 digits

def integer? : List Char → Option Int
  | '-' :: digits => (natural? digits).map fun n => -(n : Int)
  | '+' :: digits => (natural? digits).map Int.ofNat
  | digits => (natural? digits).map Int.ofNat

def isLong (n : Int) : Bool :=
  -Int.pow 2 63 ≤ n && n < Int.pow 2 63

def long? (text : List Char) : Option Int :=
  (integer? text).filter isLong

end BlockComputer.Text
