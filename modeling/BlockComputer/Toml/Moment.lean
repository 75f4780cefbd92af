import BlockComputer.Toml.Number

/-!
Dates, times of day, and both together, with or without an offset.
-/

namespace BlockComputer.Toml

open Reader

def fixed (width low high : Nat) : Reader Nat := do
  let digits ← (List.replicate width ()).mapM fun _ => satisfy isDigit
  let n := valueOf digits
  if low ≤ n ∧ n ≤ high then return n else failure

def isLeap (year : Nat) : Bool :=
  year % 4 == 0 && (year % 100 != 0 || year % 400 == 0)

def daysIn (year month : Nat) : Nat :=
  if month = 2 then (if isLeap year then 29 else 28)
  else if month ∈ [4, 6, 9, 11] then 30
  else 31

def date : Reader Unit := do
  let year ← fixed 4 0 9999
  char '-'
  let month ← fixed 2 1 12
  char '-'
  let _ ← fixed 2 1 (daysIn year month)

def time : Reader Unit := do
  let _ ← fixed 2 0 23
  char ':'
  let _ ← fixed 2 0 59
  char ':'
  let _ ← fixed 2 0 60
  let _ ← option do
    char '.'
    span1 isDigit

def offset : Reader Unit := do
  (do let _ ← satisfy fun c => c == 'Z' || c == 'z')
    <|> (do
      let _ ← satisfy fun c => c == '+' || c == '-'
      let _ ← fixed 2 0 23
      char ':'
      let _ ← fixed 2 0 59)

def moment : Reader Unit :=
  (do
    date
    let _ ← option do
      let _ ← satisfy fun c => c == 'T' || c == 't' || c == ' '
      time
      let _ ← option offset)
    <|> time

end BlockComputer.Toml
