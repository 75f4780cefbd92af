/-!
Readers: steps that take characters off the front of a text, and may fail.

A reader that fails has taken nothing, so an alternative starts where it started.
-/

namespace BlockComputer.Toml

abbrev Reader : Type → Type :=
  StateT (List Char) Option

namespace Reader

variable {α β : Type}

def satisfy (p : Char → Bool) : Reader Char := do
  match ← get with
  | c :: rest => if p c then set rest; return c else failure
  | [] => failure

def char (c : Char) : Reader Unit := do
  let _ ← satisfy (· == c)

def exactly : List Char → Reader Unit
  | [] => return
  | c :: rest => do
    char c
    exactly rest

def span (p : Char → Bool) : Reader (List Char) := do
  let text ← get
  set (text.dropWhile p)
  return text.takeWhile p

def span1 (p : Char → Bool) : Reader (List Char) := do
  let first ← satisfy p
  return first :: (← span p)

def atEnd : Reader Unit := do
  if (← get).isEmpty then return else failure

def option (r : Reader α) : Reader (Option α) :=
  some <$> r <|> pure none

/-- Reads with `r` as long as it succeeds and takes something. -/
def manyFrom (r : Reader α) (text : List Char) : List α × List Char :=
  match r text with
  | none => ([], text)
  | some (a, rest) =>
    if rest.length < text.length then
      let (others, left) := manyFrom r rest
      (a :: others, left)
    else ([], text)
termination_by text.length

def many (r : Reader α) : Reader (List α) :=
  fun text => some (manyFrom r text)

def separated1 (item : Reader α) (separator : Reader β) : Reader (List α) := do
  let first ← item
  let others ← many do
    let _ ← separator
    item
  return first :: others

def separated (item : Reader α) (separator : Reader β) : Reader (List α) :=
  separated1 item separator <|> pure []

end Reader

end BlockComputer.Toml
