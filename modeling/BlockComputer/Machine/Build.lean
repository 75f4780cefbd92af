import BlockComputer.Machine.Arithmetic
import BlockComputer.Machine.Card
import BlockComputer.Machine.Constant
import BlockComputer.Machine.Jump

/-!
The whole machine.

The primary chain runs one instruction: it fetches the word at the instruction register, runs the
dispatch chain of the group that the two highest bits select, and then goes to the next address unless
the instruction has gone elsewhere.
-/

namespace BlockComputer.Machine

variable {m : Type → Type} [Monad m]

namespace Computer

def cycle (c : Computer) (position : Vector3) (window : Window) : EmitT m Unit := do
  let registers := c.registers
  c.memory.load registers.instruction registers.opcode
  let group := position.y
  group.assign registers.opcode
  group.bitslice 10 2 true
  group.operate .add (.literal Layout.arithmeticGroup.y.value)
  c.splicer.executeAt position window
  let branch ← runIf (.ofComparison registers.jumped .eq (.literal 0))
    (registers.instruction.operate .add (.literal 1))
  branch.orElse (registers.jumped.setTo 0)

/-- The primary chain for instruction groups in the order of the words' highest bits. -/
def primaryChain (c : Computer) (groups : List ChainGroup) : EmitT m Chain := do
  let window ← Window.covering "dispatch" (groups.filterMap (·.chains.head?))
  let position ← inInit (Vector3.create "dispatch_position" Layout.arithmeticGroup)
  captureChain "main/primary" false (c.cycle position window)

end Computer

def build (cards : List (Card m)) (program : List UInt16) : EmitT m Listing := do
  let computer ← Computer.create
  Memory.preload program
  let arithmetic ← computer.arithmeticGroup
  let jump ← computer.jumpGroup
  let constant ← computer.constantGroup
  let card ← computer.cardGroup cards
  let bank ← Bank.group computer.registers
  let primary ← computer.primaryChain [arithmetic, jump, constant, card]
  let init : Chain := { label := "init", commands := (← get).init }
  let main : ChainGroup := { label := "main", onlyChain := false, chains := [init, primary] }
  Listing.ofGroups [
    (Layout.mainGroup, main),
    (Layout.arithmeticGroup, arithmetic),
    (Layout.jumpGroup, jump),
    (Layout.constantGroup, constant),
    (Layout.cardGroup, card),
    (Layout.registerBank, bank)]

def withPrintCard (program : List UInt16) : Except Failure Listing :=
  let making : EmitM Listing := do
    let card ← newPrintCard
    build [card] program
  (making.run.run {}).1

end BlockComputer.Machine
