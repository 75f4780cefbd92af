import BlockComputer.Machine.Basic

/-!
The arithmetic instructions: words 0000 to 1777, in octal.

An operation on two registers is chosen by bits 9 to 6 of the word, with its destination in bits 5 to 3
and its source in bits 2 to 0. From word 1600 on the operation has one register, in bits 2 to 0, and is
chosen by bits 6 to 3.
-/

namespace BlockComputer.Machine

def unaryBase : Int32 := 0o1600

structure ArithmeticScores where
  source : Variable
  destination : Variable
  a : Variable
  b : Variable
  target : Vector3
deriving DecidableEq, Repr

variable {m : Type → Type} [Monad m]

def ArithmeticScores.create : EmitT m ArithmeticScores :=
  inInit do
    let source ← Variable.create "arith_src" 0
    let destination ← Variable.create "arith_dst" 0
    let a ← Variable.create "arith_a" 0
    let b ← Variable.create "arith_b" 0
    let target ← Vector3.create "arith_target" Layout.arithmeticGroup
    return { source, destination, a, b, target }

namespace Computer

def binaryOperation (c : Computer) (s : ArithmeticScores) (op : ScoreOp) : EmitT m Unit := do
  c.getGeneral s.destination s.a
  c.getGeneral s.source s.b
  s.a.operate op s.b
  c.setGeneral s.destination s.a

def unaryOperation (c : Computer) (s : ArithmeticScores) (op : ScoreOp) (k : Int32) :
    EmitT m Unit := do
  c.getGeneral s.source s.a
  s.a.operate op (.literal k)
  c.setGeneral s.source s.a

/-- The nine lowest bits of the source go to the destination, the others stay in the source. -/
def split (c : Computer) (s : ArithmeticScores) : EmitT m Unit := do
  c.getGeneral s.source s.b
  s.a.assign s.b
  s.a.operate .mod (.literal 0o1000)
  s.b.operate .div (.literal 0o1000)
  c.setGeneral s.destination s.a
  c.setGeneral s.source s.b

def binaryRows (c : Computer) (s : ArithmeticScores) : List (String × EmitT m Unit) :=
  [("mov", c.binaryOperation s .set),
   ("add", c.binaryOperation s .add),
   ("sub", c.binaryOperation s .sub),
   ("mul", c.binaryOperation s .mul),
   ("div", c.binaryOperation s .div),
   ("mod", c.binaryOperation s .mod),
   ("min", c.binaryOperation s .min),
   ("max", c.binaryOperation s .max),
   ("split", c.split s),
   ("cmp", do
      c.getGeneral s.destination s.a
      c.getGeneral s.source s.b
      compare c.registers.flags s.a s.b),
   ("mov_from_scratch", do
      c.getScratch s.source s.a
      c.setGeneral s.destination s.a),
   ("mov_to_scratch", do
      c.getGeneral s.source s.a
      c.setScratch s.destination s.a),
   ("load", do
      c.getGeneral s.source s.a
      c.memory.load s.a s.b
      c.setGeneral s.destination s.b),
   ("store", do
      c.getGeneral s.destination s.a
      c.getGeneral s.source s.b
      c.memory.store s.a s.b)]

def reservedRow : String × EmitT m Unit :=
  ("reserved", return)

def unaryRows (c : Computer) (s : ArithmeticScores) : List (String × EmitT m Unit) :=
  [("ldc", c.setGeneral s.source c.registers.constant),
   ("inc", c.unaryOperation s .add 1),
   ("dec", c.unaryOperation s .sub 1),
   ("neg", c.unaryOperation s .mul (-1)),
   ("clr", do
      s.a.setTo 0
      c.setGeneral s.source s.a),
   ("asr12", c.unaryOperation s .div 4096),
   ("asl12", c.unaryOperation s .mul 4096),
   reservedRow,
   ("cmp0", do
      c.getGeneral s.source s.a
      compare c.registers.flags s.a (.literal 0)),
   ("push", do
      c.getGeneral s.source s.a
      c.push s.a),
   ("pop", do
      c.pop s.a
      c.setGeneral s.source s.a),
   reservedRow,
   reservedRow,
   reservedRow,
   ("ret", do
      let _ ← runIf (.ofComparison s.source .eq (.literal 0)) do
        c.pop c.registers.instruction
        c.registers.jumped.setTo 1),
   reservedRow]

def arithmeticDispatch (c : Computer) (s : ArithmeticScores) (window : Window) : EmitT m Unit := do
  let opcode := c.registers.opcode
  let row := s.target.z
  s.source.assign opcode
  s.source.bitslice 0 3 false
  s.destination.assign opcode
  s.destination.bitslice 3 3 false
  let branch ← runIf (.ofComparison opcode .lt (.literal unaryBase)) do
    row.assign opcode
    row.bitslice 6 4 false
    row.operate .add (.literal Layout.binaryRow)
  branch.orElse do
    row.assign opcode
    row.operate .sub (.literal unaryBase)
    row.operate .div (.literal 8)
    row.operate .add (.literal Layout.unaryRow)
  c.splicer.executeAt s.target window

def arithmeticGroup (c : Computer) : EmitT m ChainGroup := do
  let scores ← ArithmeticScores.create
  let group ← ChainGroup.addRows { label := "arithmetic", onlyChain := true }
    (c.binaryRows scores ++ c.unaryRows scores)
  let window ← Window.ofGroup group
  return group.prepend
    (← captureChain "arithmetic/dispatch" true (c.arithmeticDispatch scores window))

end Computer

end BlockComputer.Machine
