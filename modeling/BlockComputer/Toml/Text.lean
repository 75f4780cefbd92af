import BlockComputer.Text.Numeral
import BlockComputer.Toml.Space

/-!
The four kinds of strings. Those in double quotes know escapes; those between three quotes may hold line
ends, each of which counts as a line feed.
-/

namespace BlockComputer.Toml

open Reader

def quotation : Char := '\x22'

def apostrophe : Char := '\x27'

def hexDigits (value : Nat) : Nat → Reader Nat
  | 0 => return value
  | count + 1 => do
    let c ← satisfy fun c => (Text.digitIn? 16 c).isSome
    hexDigits (16 * value + (Text.digitIn? 16 c).getD 0) count

def codePoint (count : Nat) : Reader Char := do
  let n ← hexDigits 0 count
  if n.isValidChar then return Char.ofNat n else failure

def escaped : Reader Char := do
  match ← satisfy fun _ => true with
  | 'b' => return '\x08'
  | 't' => return '\t'
  | 'n' => return '\n'
  | 'f' => return '\x0c'
  | 'r' => return '\r'
  | '\\' => return '\\'
  | 'u' => codePoint 4
  | 'U' => codePoint 8
  | c => if c = quotation then return c else failure

def isPlain (mark c : Char) : Bool :=
  isPrintable c && c != mark && (c != '\\' || mark == apostrophe)

def plain (mark : Char) : Reader (List Char) :=
  span1 (isPlain mark)

def escape : Reader (List Char) := do
  char '\\'
  return [← escaped]

def basicString : Reader String := do
  char quotation
  let parts ← many (plain quotation <|> escape)
  char quotation
  return String.ofList parts.flatten

def literalString : Reader String := do
  char apostrophe
  let text ← span (isPlain apostrophe)
  char apostrophe
  return String.ofList text

def quotesInside (mark : Char) : Reader (List Char) := do
  let marks ← span1 (· == mark)
  if marks.length ≤ 2 then return marks else failure

/-- Three quotes, and up to two more in front of them that belong to the string. -/
def quotesAtEnd (mark : Char) : Reader (List Char) := do
  let marks ← span1 (· == mark)
  if 3 ≤ marks.length ∧ marks.length ≤ 5 then return marks.drop 3 else failure

def newlineInside : Reader (List Char) := do
  newline
  return ['\n']

/-- A backslash at the end of a line takes the blank space behind it away. -/
def joinedLines : Reader (List Char) := do
  char '\\'
  space
  newline
  let _ ← many (newline <|> (do let _ ← satisfy isSpace))
  return []

def multiline (mark : Char) (part : Reader (List Char)) : Reader String := do
  exactly [mark, mark, mark]
  let _ ← option newline
  let parts ← many (part <|> quotesInside mark)
  let last ← quotesAtEnd mark
  return String.ofList (parts.flatten ++ last)

def multilineBasic : Reader String :=
  multiline quotation (plain quotation <|> escape <|> newlineInside <|> joinedLines)

def multilineLiteral : Reader String :=
  multiline apostrophe (plain apostrophe <|> newlineInside)

def string : Reader String :=
  multilineBasic <|> multilineLiteral <|> basicString <|> literalString

end BlockComputer.Toml
