import BlockComputer.Error
import BlockComputer.Register

/-!
Operands of a machine instruction as they are written: a register, a star and a register for the
memory cell it points to, or a decimal number.
-/

namespace BlockComputer.Assembly

structure Operand where
  kind : OperandKind
  value : Int
deriving DecidableEq, Repr

namespace Operand

def ofRegister? (first second : OperandKind) (name : String) : Option Operand :=
  match Register.index? Register.generalNames name with
  | some i => some ⟨first, i⟩
  | none => (Register.index? Register.scratchNames name).map fun i => ⟨second, i⟩

def parse? : List Char → Option Operand
  | '*' :: name => ofRegister? .pointer .scratchPointer (String.ofList name)
  | text =>
    match ofRegister? .general .scratch (String.ofList text) with
    | some operand => some operand
    | none => (Text.long? text).map fun n => ⟨.immediate, n⟩

def parse (text : List Char) : Except Failure Operand :=
  match parse? text with
  | some operand => .ok operand
  | none => .error (.error (.invalidOperand (String.ofList text)))

end Operand

end BlockComputer.Assembly
