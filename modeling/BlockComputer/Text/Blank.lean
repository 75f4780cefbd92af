/-!
White space, and how a text falls into words and lines.

A character is blank when it has the Unicode property `White_Space`. Words are the maximal runs of
characters that are not blank; lines end at line feeds.
-/

namespace BlockComputer.Text

def blankRanges : List (Nat × Nat) :=
  [(0x9, 0xd), (0x20, 0x20), (0x85, 0x85), (0xa0, 0xa0), (0x1680, 0x1680), (0x2000, 0x200a),
   (0x2028, 0x2029), (0x202f, 0x202f), (0x205f, 0x205f), (0x3000, 0x3000)]

def isBlank (c : Char) : Bool :=
  blankRanges.any fun r => r.1 ≤ c.toNat && c.toNat ≤ r.2

def words : List Char → List (List Char)
  | [] => []
  | c :: rest =>
    if isBlank c then words rest
    else match rest with
      | [] => [[c]]
      | d :: _ =>
        if isBlank d then [c] :: words rest
        else match words rest with
          | [] => [[c]]
          | word :: others => (c :: word) :: others

def dropEnd (p : Char → Bool) (text : List Char) : List Char :=
  (text.reverse.dropWhile p).reverse

def trim (text : List Char) : List Char :=
  dropEnd isBlank (text.dropWhile isBlank)

def consLine (c : Char) (lines : List (List Char)) : List (List Char) :=
  if c = '\n' then [] :: lines
  else match lines with
    | [] => [[c]]
    | line :: others => (c :: line) :: others

/-- The lines of a text, without their line feeds; what follows the last line feed is a line too. -/
def lines (text : List Char) : List (List Char) :=
  text.foldr consLine [[]]

end BlockComputer.Text
