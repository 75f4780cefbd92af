import BlockComputer.Settings
import BlockComputer.Toml.Moment
import BlockComputer.Toml.Table
import BlockComputer.Toml.Text

/-!
Documents in the format TOML 1.0: lines with pairs of keys and values, and headers that open tables.

This is the reader of documents that the programs run with; they are stated over any other as well.
-/

namespace BlockComputer.Toml

open Reader

/-- The number of parts that a dotted key, and of levels that nested values, must stay below. -/
def depthLimit : Nat := 80

def keyPart : Reader String :=
  basicString <|> literalString
    <|> String.ofList <$> span1 fun c => c.isAlphanum || c == '-' || c == '_'

def key : Reader (List String × String) := do
  let parts ← separated1 (do space; let part ← keyPart; space; return part) (char '.')
  match parts.getLast? with
  | some last => if parts.length < depthLimit then return (parts.dropLast, last) else failure
  | none => failure

def scalar : Reader Value :=
  Value.string <$> string
    <|> (do
      exactly "true".toList <|> exactly "false".toList <|> moment <|> float
        <|> (do let _ ← integer)
      return .scalar)

def pair (value : Reader Value) : Reader Entries.Pair := do
  let (path, name) ← key
  char '='
  space
  return ⟨path, name, ← value⟩

def array (value : Reader Value) : Reader Value := do
  char '['
  let items ← separated (do spaceLines; let item ← value; spaceLines; return item) (char ',')
  if !items.isEmpty then
    let _ ← option (char ',')
  spaceLines
  char ']'
  return .array items

def inlineTable (value : Reader Value) : Reader Value := do
  char '\x7b'
  let pairs ← separated (do let p ← pair value; space; return p) (char ',')
  space
  char '\x7d'
  match Entries.addPairs pairs [] with
  | some entries => return .table .braces entries
  | none => failure

def value : Nat → Reader Value
  | 0 => scalar
  | depth + 1 => scalar <|> array (value depth) <|> inlineTable (value depth)

inductive Line where
  | blank
  | pair (p : Entries.Pair)
  | table (path : List String) (name : String)
  | row (path : List String) (name : String)

def tableHeader : Reader Line := do
  char '['
  let (path, name) ← key
  char ']'
  return .table path name

def rowHeader : Reader Line := do
  exactly ['[', '[']
  let (path, name) ← key
  exactly [']', ']']
  return .row path name

def line : Reader Line := do
  space
  (do let content ← rowHeader <|> tableHeader <|> Line.pair <$> pair (value (depthLimit - 1))
      trailer
      return content)
    <|> (do trailer; return .blank)

def lines : Reader (List Line) := do
  let _ ← option (char '\ufeff')
  let all ← many line
  space
  atEnd
  return all

structure Section where
  header : Option Line
  pairs : List Entries.Pair

def consLine (line : Line) (sections : List Section) : List Section :=
  match line, sections with
  | .blank, _ => sections
  | .pair p, ⟨none, pairs⟩ :: others => ⟨none, p :: pairs⟩ :: others
  | .pair p, others => ⟨none, [p]⟩ :: others
  | header, ⟨none, pairs⟩ :: others => ⟨some header, pairs⟩ :: others
  | header, others => ⟨some header, []⟩ :: others

def addSection (entries : Entries) (s : Section) : Option Entries :=
  match s.header with
  | some (.table path name) => Entries.modifyAt (Entries.addTable name s.pairs) path entries
  | some (.row path name) => Entries.modifyAt (Entries.addRow name s.pairs) path entries
  | _ => Entries.addPairs s.pairs entries

def parse? (text : String) : Option Entries := do
  let (all, _) ← lines text.toList
  (all.foldr consLine []).foldlM addSection []

def Value.text? : Value → Option String
  | .string text => some text
  | _ => none

def readDocument (text : String) : Option Document :=
  (parse? text).map fun entries => entries.map fun (name, value) => (name, value.text?)

end BlockComputer.Toml

namespace BlockComputer.Settings

def parse : String → Except Failure Settings :=
  read Toml.readDocument

end BlockComputer.Settings
