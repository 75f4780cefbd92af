import BlockComputer.Machine.Basic

/-!
The constant instructions: words 4000 to 5777, in octal.

They load the number in bits 7 to 0 into the constant register: as it is, read as two's complement, or
shifted in from below. Bits 9 and 8 choose.
-/

namespace BlockComputer.Machine

structure ConstantScores where
  number : Variable
  position : Vector3
deriving DecidableEq, Repr

variable {m : Type → Type} [Monad m]

def ConstantScores.create : EmitT m ConstantScores :=
  inInit do
    let number ← Variable.create "const_imm" 0
    let position ← Vector3.create "const_position" Layout.constantGroup
    return { number, position }

namespace Computer

def constantRows (c : Computer) (s : ConstantScores) : List (String × EmitT m Unit) :=
  [("const", c.registers.constant.assign s.number),
   ("sconst", do
      s.number.signExtend 8
      c.registers.constant.assign s.number),
   ("econst", do
      c.registers.constant.operate .mul (.literal 256)
      c.registers.constant.operate .add s.number),
   ("reserved", return)]

def constantDispatch (c : Computer) (s : ConstantScores) (window : Window) : EmitT m Unit := do
  let opcode := c.registers.opcode
  let row := s.position.z
  s.number.assign opcode
  s.number.bitslice 0 8 false
  row.assign opcode
  row.bitslice 8 2 false
  row.operate .add (.literal 1)
  c.splicer.executeAt s.position window

def constantGroup (c : Computer) : EmitT m ChainGroup := do
  let scores ← ConstantScores.create
  let group ← ChainGroup.addRows { label := "constant", onlyChain := true } (c.constantRows scores)
  let window ← Window.ofGroup group
  return group.prepend
    (← captureChain "constant/dispatch" true (c.constantDispatch scores window))

end Computer

end BlockComputer.Machine
