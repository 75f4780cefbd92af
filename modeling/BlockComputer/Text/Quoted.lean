/-!
Quoted text, as a command stands inside a placed block.

A text is written between two equal quote marks. The backslash, the mark itself and the control
characters are escaped, so the written form is one line of printable characters and the mark never
stands inside it unescaped.
-/

namespace BlockComputer.Text.Quoted

def single : Char := '\x27'

def double : Char := '\x22'

/-- The mark around a text: the double one exactly when the text holds a single and no double. -/
def mark (text : List Char) : Char :=
  if single ∈ text ∧ double ∉ text then double else single

def hexDigit (n : Nat) : Char :=
  if n < 10 then Char.ofNat (48 + n) else Char.ofNat (87 + n)

def isControl (c : Char) : Bool :=
  c.toNat < 0x20 || c.toNat == 0x7f

def escape (delimiter c : Char) : List Char :=
  if c = '\\' then ['\\', '\\']
  else if c = '\n' then ['\\', 'n']
  else if c = '\r' then ['\\', 'r']
  else if c = '\t' then ['\\', 't']
  else if c = delimiter then ['\\', c]
  else if isControl c then ['\\', 'x', hexDigit (c.toNat / 16), hexDigit (c.toNat % 16)]
  else [c]

def encode (text : List Char) : List Char :=
  mark text :: text.flatMap (escape (mark text)) ++ [mark text]

def quote (text : String) : String :=
  String.ofList (encode text.toList)

end BlockComputer.Text.Quoted
