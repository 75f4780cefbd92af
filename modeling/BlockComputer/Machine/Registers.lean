import BlockComputer.Register
import BlockComputer.Score.Arithmetic

/-!
The registers of the machine, each a variable of its own.
-/

namespace BlockComputer.Machine

structure Flags where
  lt : Variable
  le : Variable
  eq : Variable
  ne : Variable
  ge : Variable
  gt : Variable
deriving DecidableEq, Repr

structure Registers where
  constant : Variable
  instruction : Variable
  stack : Variable
  base : Variable
  opcode : Variable
  /-- one exactly when the running instruction has set the next address itself -/
  jumped : Variable
  bankRead : Variable
  bankWrite : Variable
  general : List Variable
  scratch : List Variable
  flags : Flags
  cardArgument : Variable
deriving DecidableEq, Repr

def stackTop : Int32 := 4095

namespace Registers

variable {m : Type → Type} [Monad m]

def create : EmitT m Registers :=
  inInit do
    let general ← Register.generalNames.mapM (Variable.create · 0)
    let scratch ← Register.scratchNames.mapM (Variable.create · 0)
    let constant ← Variable.create "cr" 0
    let instruction ← Variable.create "ip" 0
    let stack ← Variable.create "sp" stackTop
    let base ← Variable.create "bp" stackTop
    let opcode ← Variable.create "opcode" 0
    let jumped ← Variable.create "jumped" 0
    let bankRead ← Variable.create "reg_src" 0
    let bankWrite ← Variable.create "reg_dst" 0
    let lt ← Variable.create "LF" 0
    let le ← Variable.create "LE" 0
    let eq ← Variable.create "EQ" 0
    let ne ← Variable.create "NE" 0
    let ge ← Variable.create "GE" 0
    let gt ← Variable.create "GT" 0
    let cardArgument ← Variable.create "card_arg" 0
    return {
      constant, instruction, stack, base, opcode, jumped, bankRead, bankWrite, general, scratch
      flags := { lt, le, eq, ne, ge, gt }, cardArgument }

def generalNamed? (r : Registers) (name : String) : Option Variable := do
  r.general[← Register.index? Register.generalNames name]?

def scratchNamed? (r : Registers) (name : String) : Option Variable := do
  r.scratch[← Register.index? Register.scratchNames name]?

def toList (r : Registers) : List Variable :=
  [r.constant, r.instruction, r.stack, r.base, r.opcode, r.jumped, r.bankRead, r.bankWrite,
    r.cardArgument, r.flags.lt, r.flags.le, r.flags.eq, r.flags.ne, r.flags.ge, r.flags.gt]
    ++ r.general ++ r.scratch

end Registers

end BlockComputer.Machine
