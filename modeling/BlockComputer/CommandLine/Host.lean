import BlockComputer.Settings

/-!
What the command-line programs need from the system they run on, and what they report back.

The programs are stated over any `Host`, so the same steps run on the real file system and on a value that
stands for one.
-/

namespace BlockComputer.CommandLine

/-- Access to files and other programs, and a reader of documents for the settings. -/
structure Host (m : Type → Type) where
  readText : String → m (Except FileError String)
  createParents : String → m (Except FileError Unit)
  writeText : String → String → m (Except FileError Unit)
  runProgram : String → List String → m (Except FileError Nat)
  readDocument : String → Option Document

structure Report where
  code : UInt32
  output : String
  errors : String
deriving DecidableEq, Repr

/-- Steps of a program. The state is what it has printed; an exception is what it prints to the error
output when it gives up. -/
abbrev RunT (m : Type → Type) : Type → Type :=
  ExceptT String (StateT String m)

variable {m : Type → Type} [Monad m]

def ask {α : Type} (step : m α) : RunT m α :=
  ExceptT.lift (StateT.lift step)

def printLine (text : String) : RunT m Unit :=
  modify (· ++ text ++ "\n")

def printLines (texts : List String) : RunT m Unit :=
  texts.forM printLine

def giveUp {α : Type} (text : String) : RunT m α :=
  throw (text ++ "\n")

/-- Runs a program: the exit code is zero exactly when it did not give up. -/
def report (program : RunT m Unit) : m Report := do
  let (outcome, output) ← program.run.run ""
  match outcome with
  | .ok _ => return { code := 0, output, errors := "" }
  | .error errors => return { code := 1, output, errors }

def describe : Failure → String
  | .error cause => cause.message
  | .crash => "arithmetic left the machine integers"

end BlockComputer.CommandLine
