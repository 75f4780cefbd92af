import BlockComputer.Machine.Bank
import BlockComputer.Machine.Memory

/-!
The parts that all instructions of the machine share, and their steps: access to registers by number,
the stack, and comparisons.
-/

namespace BlockComputer.Machine

structure Computer where
  registers : Registers
  memory : Memory
  splicer : Splicer
  bank : Bank
deriving DecidableEq, Repr

variable {m : Type → Type} [Monad m]

def compare (flags : Flags) (left : Variable) (right : Source) : EmitT m Unit := do
  let decide (flag : Variable) (relation : Comparison) : EmitT m Unit := do
    let branch ← runIf (.ofComparison left relation right) (flag.setTo 1)
    branch.orElse (flag.setTo 0)
  decide flags.lt .lt
  decide flags.le .le
  decide flags.ge .ge
  decide flags.gt .gt
  let branch ← runIf (.ofComparison left .eq right) do
    flags.eq.setTo 1
    flags.ne.setTo 0
  branch.orElse do
    flags.eq.setTo 0
    flags.ne.setTo 1

namespace Computer

def create : EmitT m Computer := do
  let memory ← Memory.create
  let splicer ← Splicer.create
  let bank ← Bank.create
  let registers ← Registers.create
  return { registers, memory, splicer, bank }

def getGeneral (c : Computer) (index target : Variable) : EmitT m Unit := do
  c.bank.access .loadGeneral index
  target.assign c.registers.bankRead

def setGeneral (c : Computer) (index source : Variable) : EmitT m Unit := do
  c.registers.bankWrite.assign source
  c.bank.access .storeGeneral index

def getScratch (c : Computer) (index target : Variable) : EmitT m Unit := do
  c.bank.access .loadScratch index
  target.assign c.registers.bankRead

def setScratch (c : Computer) (index source : Variable) : EmitT m Unit := do
  c.registers.bankWrite.assign source
  c.bank.access .storeScratch index

def push (c : Computer) (source : Variable) : EmitT m Unit :=
  c.memory.push c.registers.stack source

def pop (c : Computer) (target : Variable) : EmitT m Unit :=
  c.memory.pop c.registers.stack target

end Computer

end BlockComputer.Machine
