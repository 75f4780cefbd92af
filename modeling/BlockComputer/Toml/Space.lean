import BlockComputer.Toml.Reader

/-!
What may stand between the parts of a document: spaces and tabs, comments, and line ends. No control
character but the tab may stand in a comment.
-/

namespace BlockComputer.Toml

open Reader

def isSpace (c : Char) : Bool :=
  c == ' ' || c == '\t'

def isPrintable (c : Char) : Bool :=
  c == '\t' || (0x20 ≤ c.toNat && c.toNat != 0x7f)

def space : Reader Unit := do
  let _ ← span isSpace

def newline : Reader Unit :=
  char '\n' <|> exactly ['\r', '\n']

def comment : Reader Unit := do
  char '#'
  let _ ← span isPrintable

def lineEnd : Reader Unit :=
  newline <|> atEnd

def trailer : Reader Unit := do
  space
  let _ ← option comment
  lineEnd

def spaceLines : Reader Unit := do
  space
  let _ ← many do
    newline <|> (do comment; newline)
    space

end BlockComputer.Toml
