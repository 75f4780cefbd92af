import BlockComputer.Position

/-!
Where the parts of the machine stand in the world.
-/

namespace BlockComputer.Machine.Layout

def mainGroup : Position := .absolute 0 0 0

def arithmeticGroup : Position := .absolute 0 1 0

def jumpGroup : Position := .absolute 0 2 0

def constantGroup : Position := .absolute 0 3 0

def cardGroup : Position := .absolute 0 4 0

def registerBank : Position := .absolute 0 6 0

def instructionGroup (number : Int32) : Except Failure Position :=
  return .absolute 0 (← narrow (number.toInt + 1)) 0

/-- The row of the first operation on two registers; the dispatch chain stands in row zero. -/
def binaryRow : Int32 := 1

def binaryCount : Int32 := 14

def unaryRow : Int32 := binaryRow + binaryCount

def unaryCount : Int32 := 16

def memoryFirst : Position := .absolute 0 128 0

def memorySize : Position := .absolute 16 16 16

def memoryLast : Position := .absolute 15 143 15

def memoryWords : Nat := 16 * 16 * 16

/-- The barrel of a memory word: sixteen along x, then sixteen rows up y, then sixteen layers along z.
Quotients and remainders round toward zero, so a negative index has no barrel inside the memory. -/
def cell (index : Int32) : Position :=
  .absolute (index % 16) (128 + index / 16 % 16) (index / 256 % 16)

end BlockComputer.Machine.Layout
