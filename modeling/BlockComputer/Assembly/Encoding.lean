import BlockComputer.Text.Numeral

/-!
The shape of a machine instruction: a fixed opcode at the top of a twelve-bit word, and operand
fields below it.
-/

namespace BlockComputer.Assembly

def wordBits : Nat := 12

/-- `width` bits of a word that start `skip` bits above its lowest one. -/
structure Field where
  width : Nat
  skip : Nat
deriving DecidableEq, Repr

inductive OperandKind where
  | immediate
  | general
  | pointer
  | scratch
  | scratchPointer
deriving DecidableEq, Repr

def OperandKind.symbol : OperandKind → String
  | .immediate => "imm"
  | .general => "r32"
  | .pointer => "p32"
  | .scratch => "s32"
  | .scratchPointer => "ps32"

/-- One way to encode a mnemonic: the opcode, its width, and where each operand goes. -/
structure Encoding where
  mnemonic : String
  opcode : UInt16
  opcodeWidth : Nat
  fields : List (OperandKind × Field)
deriving DecidableEq, Repr

namespace Encoding

def kinds (e : Encoding) : List OperandKind :=
  e.fields.map Prod.fst

def accepts (e : Encoding) (kinds : List OperandKind) : Bool :=
  e.kinds == kinds

def describe (e : Encoding) : String :=
  let operands := String.intercalate ", " (e.kinds.map OperandKind.symbol)
  s!"{e.mnemonic} {Text.padded 2 e.opcodeWidth e.opcode.toNat} [{operands}]"

end Encoding

end BlockComputer.Assembly
