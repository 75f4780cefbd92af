import BlockComputer.Assembly.Field
import BlockComputer.Assembly.InstructionSet
import BlockComputer.Assembly.Operand
import BlockComputer.Text.Blank

/-!
From lines of assembly to words.

A line is a mnemonic and its operands, between blanks; commas at the end of an operand are ignored. Of
two faults in a line the first of these is reported: no mnemonic, an operand that is none, an unknown
mnemonic, operands of the wrong kinds, a number too wide for its field.
-/

namespace BlockComputer.Assembly

def Encoding.encode (e : Encoding) (operands : List Int) : Except Failure UInt16 :=
  if wordBits < e.opcodeWidth then .error .crash
  else
    (e.fields.zip operands).foldlM (fun word (slot, value) => slot.2.set word value)
      (UInt16.ofNat (e.opcode.toNat * Nat.pow 2 (wordBits - e.opcodeWidth)))

/-- The description; a crash if the opcode would be filled up beyond the greatest width of digits. -/
def Encoding.describeWithin (e : Encoding) : Except Failure String :=
  if Text.widthLimit < e.opcodeWidth then .error .crash else .ok e.describe

def readOperand (text : List Char) : Except Failure Operand :=
  Operand.parse (Text.dropEnd (· == ',') text)

def assemble (mnemonic : String) (operands : List Operand) : Except Failure UInt16 :=
  match candidates mnemonic with
  | [] => .error (.error (.unknownMnemonic mnemonic))
  | known =>
    let kinds := operands.map Operand.kind
    match known.find? (·.accepts kinds) with
    | some e => e.encode (operands.map Operand.value)
    | none => .error (.error (.noEncoding mnemonic kinds known))

def encodeLine (line : List Char) : Except Failure UInt16 :=
  match Text.words line with
  | [] => .error (.error (.unknownMnemonic (String.ofList line)))
  | mnemonic :: texts => do
    let operands ← texts.mapM readOperand
    assemble (String.ofList mnemonic) operands

def isInstruction (line : List Char) : Bool :=
  match line with
  | [] => false
  | c :: _ => c != '#'

def numberedLines (source : List Char) : List (Nat × List Char) :=
  (Text.lines source).mapIdx fun i line => (i + 1, Text.trim line)

def instructionLines (source : List Char) : List (Nat × List Char) :=
  (numberedLines source).filter fun line => isInstruction line.2

def encodeProgram (source : List Char) : Except Failure (List UInt16) :=
  (instructionLines source).mapM fun line => encodeLine line.2

def halves (word : UInt16) : UInt16 × UInt16 :=
  (word / 64, word % 64)

end BlockComputer.Assembly
