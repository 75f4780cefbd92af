import BlockComputer.Machine.Counts
import BlockComputer.Machine.Layout
import BlockComputer.Session.Entity

/-!
The memory: a cube of barrels, each of which holds one word.

A word is reached by way of an entity, the head, that is moved into its barrel. The address is taken
modulo the size of the memory, so every access stays inside the cube.
-/

namespace BlockComputer.Machine

/-- The head, and the variables that an access works in. They are created once and used by every
access. -/
structure Memory where
  head : Entity
  address : Vector3
  high : Variable
  low : Variable
deriving DecidableEq, Repr

namespace Memory

variable {m : Type → Type} [Monad m]

def initialState (memory : Memory) : EmitT m Unit := do
  emit (.fill Layout.memoryFirst Layout.memoryLast .barrel)
  memory.head.create

def create : EmitT m Memory :=
  inInit do
    let head ← newMarker
    let address ← Vector3.create "mem_index" Layout.memoryFirst
    let high ← Variable.create "mem_high" 0
    let low ← Variable.create "mem_low" 0
    let memory : Memory := { head, address, high, low }
    memory.initialState
    return memory

def preloadWord (index : Nat) (word : UInt16) : List Command :=
  let position := Layout.cell (Int32.ofNat index)
  let counts := Counts.ofNumber (Int32.ofNat word.toNat)
  [.setCount ⟨position, 0⟩ counts.high.toInt, .setCount ⟨position, 1⟩ counts.low.toInt]

def preloadCommands (words : List UInt16) : List Command :=
  (words.mapIdx preloadWord).flatten

def preload (words : List UInt16) : EmitT m Unit := do
  if Layout.memoryWords < words.length then reject (.programTooLong words.length)
  inInit (emitAll (preloadCommands words))

def headSlot (index : Nat) : Slot := ⟨.here, index⟩

def seek (memory : Memory) (index : Variable) : EmitT m Unit := do
  let address := memory.address
  address.x.assign index
  address.x.bitslice 0 4 false
  address.y.assign index
  address.y.bitslice 4 4 false
  address.z.assign index
  address.z.bitslice 8 4 false
  address.offset Layout.memoryFirst
  memory.head.moveTo address

def readCount (memory : Memory) (slot : Nat) (target : Variable) : EmitT m Unit :=
  emitUnder [.atEntity memory.head, .storeResult (.score target)] (.getCount (headSlot slot))

def writeCount (memory : Memory) (slot : Nat) (source : Variable) : EmitT m Unit :=
  emitUnder [.atEntity memory.head, .storeResult (.slot (headSlot slot))] (.getScore source)

def load (memory : Memory) (index target : Variable) : EmitT m Unit := do
  memory.seek index
  memory.readCount 0 memory.high
  memory.readCount 1 memory.low
  target.assign memory.high
  target.operate .sub (.literal Counts.bias)
  target.operate .mul (.literal Counts.half)
  target.operate .add memory.low
  target.operate .sub (.literal Counts.bias)

def store (memory : Memory) (index source : Variable) : EmitT m Unit := do
  memory.high.assign source
  memory.high.operate .mod (.literal Counts.word)
  memory.low.assign memory.high
  memory.low.operate .mod (.literal Counts.half)
  memory.low.operate .add (.literal Counts.bias)
  memory.high.operate .div (.literal Counts.half)
  memory.high.operate .add (.literal Counts.bias)
  memory.seek index
  memory.writeCount 0 memory.high
  memory.writeCount 1 memory.low

/-- Writes at the stack pointer, then moves it down. -/
def push (memory : Memory) (pointer source : Variable) : EmitT m Unit := do
  memory.store pointer source
  pointer.operate .sub (.literal 1)

def pop (memory : Memory) (pointer target : Variable) : EmitT m Unit := do
  pointer.operate .add (.literal 1)
  memory.load pointer target

end Memory

end BlockComputer.Machine
