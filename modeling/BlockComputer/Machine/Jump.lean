import BlockComputer.Machine.Basic

/-!
The jump instructions: words 2000 to 3777, in octal.

Up to word 3577 a jump goes by a signed offset in bits 6 to 0, and bits 9 to 7 choose the condition. From
word 3600 on it goes to the page in bits 3 to 0, at the place in the constant register, and bits 6 to 4
choose the condition.
-/

namespace BlockComputer.Machine

def pageJumpBase : Int32 := 0o3600

structure JumpScores where
  target : Variable
  offset : Variable
  returnAddress : Variable
  position : Vector3
deriving DecidableEq, Repr

variable {m : Type → Type} [Monad m]

def JumpScores.create : EmitT m JumpScores :=
  inInit do
    let target ← Variable.create "jump_target" 0
    let offset ← Variable.create "jump_offset" 0
    let returnAddress ← Variable.create "return_address" 0
    let position ← Vector3.create "jump_position" Layout.jumpGroup
    return { target, offset, returnAddress, position }

namespace Computer

/-- Goes to an address, and tells the running cycle that it has. -/
def takeJump (c : Computer) (target : Variable) : EmitT m Unit := do
  c.registers.instruction.assign target
  c.registers.jumped.setTo 1

def jumpIf (c : Computer) (s : JumpScores) (flag : Variable) : EmitT m Unit := do
  let _ ← runIf (.ofComparison flag .gt (.literal 0)) (c.takeJump s.target)

def call (c : Computer) (s : JumpScores) : EmitT m Unit := do
  s.returnAddress.assign c.registers.instruction
  s.returnAddress.operate .add (.literal 1)
  c.push s.returnAddress
  c.takeJump s.target

def jumpRows (c : Computer) (s : JumpScores) : List (String × EmitT m Unit) :=
  [("lt", c.jumpIf s c.registers.flags.lt),
   ("le", c.jumpIf s c.registers.flags.le),
   ("eq", c.jumpIf s c.registers.flags.eq),
   ("ge", c.jumpIf s c.registers.flags.ge),
   ("gt", c.jumpIf s c.registers.flags.gt),
   ("ne", c.jumpIf s c.registers.flags.ne),
   ("jmp", c.takeJump s.target),
   ("call", c.call s)]

def jumpDispatch (c : Computer) (s : JumpScores) (window : Window) : EmitT m Unit := do
  let opcode := c.registers.opcode
  let row := s.position.z
  let branch ← runIf (.ofComparison opcode .lt (.literal pageJumpBase)) do
    s.offset.assign opcode
    s.offset.operate .mod (.literal 128)
    s.offset.signExtend 7
    s.target.assign c.registers.instruction
    s.target.operate .add s.offset
    row.assign opcode
    row.bitslice 7 3 false
    row.operate .add (.literal 1)
  branch.orElse do
    s.target.assign opcode
    s.target.operate .mod (.literal 16)
    s.target.operate .mul (.literal 256)
    s.target.operate .add c.registers.constant
    row.assign opcode
    row.bitslice 4 3 false
    row.operate .add (.literal 1)
  c.splicer.executeAt s.position window

def jumpGroup (c : Computer) : EmitT m ChainGroup := do
  let scores ← JumpScores.create
  let group ← ChainGroup.addRows { label := "jump", onlyChain := true } (c.jumpRows scores)
  let window ← Window.ofGroup group
  return group.prepend (← captureChain "jump/dispatch" true (c.jumpDispatch scores window))

end Computer

end BlockComputer.Machine
