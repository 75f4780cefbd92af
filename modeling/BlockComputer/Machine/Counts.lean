import BlockComputer.Error

/-!
Memory words as item counts.

A word of twelve bits is kept in a barrel as two counts, one for its upper and one for its lower six
bits. A count cannot be zero without its slot vanishing, so both are one more than the six bits.
-/

namespace BlockComputer.Machine

structure Counts where
  high : Int32
  low : Int32
deriving DecidableEq, Repr

namespace Counts

/-- What a count is greater by than the six bits it stands for. -/
def bias : Int32 := 1

def half : Int32 := 64

def word : Int32 := 4096

def ofNumber (n : Int32) : Counts :=
  let residue := n.toInt % word.toInt
  ⟨Int32.ofInt (residue / half.toInt + bias.toInt), Int32.ofInt (residue % half.toInt + bias.toInt)⟩

/-- The word of two counts, read as unsigned; a crash where a step of the sum leaves 32 bits. -/
def toNumber (c : Counts) : Except Failure Int32 := do
  let high ← narrow (c.high.toInt - bias.toInt)
  let upper ← narrow (high.toInt * half.toInt)
  let low ← narrow (c.low.toInt - bias.toInt)
  narrow (upper.toInt + low.toInt)

def toSigned (c : Counts) : Except Failure Int32 := do
  let n ← c.toNumber
  if word.toInt / 2 ≤ n.toInt then narrow (n.toInt - word.toInt) else return n

end Counts

end BlockComputer.Machine
