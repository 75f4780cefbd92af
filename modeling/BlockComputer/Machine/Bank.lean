import BlockComputer.Machine.Layout
import BlockComputer.Machine.Registers
import BlockComputer.Relocation

/-!
The register bank: registers selected by a number that is known only when the machine runs.

The bank has one row of transfer commands for each kind of access. An access runs the unit of its row
whose x coordinate is the register's number.
-/

namespace BlockComputer.Machine

inductive BankAccess where
  | loadGeneral
  | storeGeneral
  | loadScratch
  | storeScratch
deriving DecidableEq, Repr

def BankAccess.row : BankAccess → Int32
  | .loadGeneral => 0
  | .storeGeneral => 1
  | .loadScratch => 2
  | .storeScratch => 3

structure Bank where
  fetcher : Entity
deriving DecidableEq, Repr

namespace Bank

variable {m : Type → Type} [Monad m]

def create : EmitT m Bank :=
  inInit do
    let fetcher ← newMarker
    fetcher.create
    return { fetcher }

def access (bank : Bank) (kind : BankAccess) (index : Variable) : EmitT m Unit := do
  bank.fetcher.teleport (← Layout.registerBank.add (.absolute 0 0 kind.row))
  bank.fetcher.storeData (Entity.axisPath 0) index .double
  Splicer.spliceFrom bank.fetcher .single

def rows (r : Registers) : List (String × EmitT m Unit) :=
  [("load_gpr", r.general.forM fun v => r.bankRead.assign v),
   ("store_gpr", r.general.forM fun v => v.assign r.bankWrite),
   ("load_scratch", r.scratch.forM fun v => r.bankRead.assign v),
   ("store_scratch", r.scratch.forM fun v => v.assign r.bankWrite)]

def group (r : Registers) : EmitT m ChainGroup :=
  ChainGroup.addRows { label := "registers", onlyChain := true } (rows r)

end Bank

end BlockComputer.Machine
