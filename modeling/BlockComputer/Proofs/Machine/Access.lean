import BlockComputer.Machine.Basic
import BlockComputer.Proofs.Emission.Arithmetic
import BlockComputer.Proofs.Emission.Relocation

/-!
What accesses to the memory and to the register bank emit.
-/

namespace BlockComputer.Machine

namespace Memory

variable (memory : Memory) (index v : Variable)

def seekCommands : List Command :=
  let a := memory.address
  [.operateScore a.x .set index, .operateScore a.x .mod (constantNamed 16),
    .operateScore a.y .set index, .operateScore a.y .div (constantNamed 16),
    .operateScore a.y .mod (constantNamed 16),
    .operateScore a.z .set index, .operateScore a.z .div (constantNamed 256),
    .operateScore a.z .mod (constantNamed 16),
    a.y.addCommand 128,
    Piece.storeCommand memory.head 0 a.x, Piece.storeCommand memory.head 1 a.y,
    Piece.storeCommand memory.head 2 a.z]

def readCommand (slot : Nat) : Command :=
  .execute [.atEntity memory.head, .storeResult (.score v)] (.getCount (headSlot slot))

def writeCommand (slot : Nat) : Command :=
  .execute [.atEntity memory.head, .storeResult (.slot (headSlot slot))] (.getScore v)

def loadCommands : List Command :=
  memory.seekCommands index
    ++ [memory.readCommand memory.high 0, memory.readCommand memory.low 1,
      .operateScore v .set memory.high, v.addCommand (-1),
      .operateScore v .mul (constantNamed 64), .operateScore v .add memory.low, v.addCommand (-1)]

def countCommands : List Command :=
  [.operateScore memory.high .set v, .operateScore memory.high .mod (constantNamed 4096),
    .operateScore memory.low .set memory.high, .operateScore memory.low .mod (constantNamed 64),
    memory.low.addCommand 1, .operateScore memory.high .div (constantNamed 64),
    memory.high.addCommand 1]

def storeCommands : List Command :=
  memory.countCommands v ++ memory.seekCommands index
    ++ [memory.writeCommand memory.high 0, memory.writeCommand memory.low 1]

theorem emits_seek :
    Emits (memory.seek index) () (memory.seekCommands index) [16, 16, 16, 256, 16] := by
  have offset : Emits (memory.address.offset Layout.memoryFirst) ()
      [memory.address.y.addCommand 128] [] :=
    (Emits.pure ()).seq <| (Emits.operateAdd _ 128 (by decide)).seq (Emits.pure ())
  exact (Emits.assign _ _).seq <| (Emits.bitslice _ 0 4 false (by decide) (by decide)).seq <|
    (Emits.assign _ _).seq <| (Emits.bitslice _ 4 4 false (by decide) (by decide)).seq <|
    (Emits.assign _ _).seq <| (Emits.bitslice _ 8 4 false (by decide) (by decide)).seq <|
    offset.seq (Emits.moveTo _ _)

theorem emits_load :
    Emits (memory.load index v) () (memory.loadCommands index v) [16, 16, 16, 256, 16, 64] :=
  (memory.emits_seek index).seq <| (Emits.emit _).seq <| (Emits.emit _).seq <|
    (Emits.assign _ _).seq <| (Emits.operateSub _ _ (by decide)).seq <| (Emits.operateMul _ _).seq <|
    (Emits.operateVariable _ _ _).seq (Emits.operateSub _ _ (by decide))

theorem emits_store :
    Emits (memory.store index v) () (memory.storeCommands index v)
      [4096, 64, 64, 16, 16, 16, 256, 16] :=
  (Emits.assign _ _).seq <| (Emits.operateMod _ _).seq <| (Emits.assign _ _).seq <|
    (Emits.operateMod _ _).seq <| (Emits.operateAdd _ _ (by decide)).seq <|
    (Emits.operateDiv _ _).seq <| (Emits.operateAdd _ _ (by decide)).seq <|
    (memory.emits_seek index).seq <| (Emits.emit _).seq (Emits.emit _)

theorem emits_push :
    Emits (memory.push index v) () (memory.storeCommands index v ++ [index.addCommand (-1)])
      [4096, 64, 64, 16, 16, 16, 256, 16] :=
  (memory.emits_store index v).seq (Emits.operateSub _ _ (by decide))

theorem emits_pop :
    Emits (memory.pop index v) () (index.addCommand 1 :: memory.loadCommands index v)
      [16, 16, 16, 256, 16, 64] :=
  (Emits.operateAdd _ _ (by decide)).seq (memory.emits_load index v)

end Memory

namespace Bank

variable (bank : Bank) (kind : BankAccess) (index : Variable)

def accessItems : List Item :=
  [.unit (.teleport bank.fetcher (.absolute 0 6 kind.row)),
    .unit (Piece.storeCommand bank.fetcher 0 index), .splice bank.fetcher .single]

theorem registerBank_add :
    Layout.registerBank.add (.absolute 0 0 kind.row) = .ok (.absolute 0 6 kind.row) := by
  cases kind <;> rfl

theorem emits_access :
    Emits (bank.access kind index) () (units (bank.accessItems kind index)) [] := by
  unfold access
  simp only [registerBank_add]
  exact (Emits.pure _).bind <| (Emits.emit _).seq <| (Emits.storeData _ _ _).seq <|
    Emits.spliceFrom bank.fetcher (by decide)

end Bank

end BlockComputer.Machine
