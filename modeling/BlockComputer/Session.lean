import BlockComputer.Chain
import Std.Data.HashSet

/-!
What one generation remembers, and the monad in which generation steps run.

The session keeps the open scopes, the initialization commands, the names in use, the constants and
the number of the next entity tag. A step that fails leaves behind what it had done to the session
before: names stay registered, constants stay materialized. The steps are stated over any monad `m`
below, in which a caller can keep more than the session.
-/

namespace BlockComputer

structure Session where
  /-- the commands of each open scope, the innermost scope first -/
  scopes : List (List Command) := []
  init : List Command := [.addObjective]
  names : List String := []
  constants : List Int32 := []
  nextTag : Nat := 0
deriving DecidableEq, Repr

def Session.depth (s : Session) : Nat :=
  s.scopes.length

def Session.isRegistered (s : Session) (name : String) : Bool :=
  name ∈ s.names

/-- The name itself if it is free, else the first free one of `name0`, `name1` and so on. One number
more than there are names in use is enough to find it. -/
def Session.freshName (s : Session) (name : String) : String :=
  if s.isRegistered name then
    let taken := Std.HashSet.ofList s.names
    let numbered := (List.range (s.names.length + 1)).map fun n => s!"{name}{n}"
    (numbered.find? fun trial => !taken.contains trial).getD name
  else name

/-- Generation steps above the monad `m`: the session survives a failure. -/
abbrev EmitT (m : Type → Type) : Type → Type :=
  ExceptT Failure (StateT Session m)

abbrev EmitM : Type → Type :=
  EmitT Id

variable {m : Type → Type} [Monad m]

def reject {α : Type} (cause : Error) : EmitT m α :=
  throw (.error cause)

/-- Runs a step and hands its error back as a value; a crash still ends everything. -/
def attempt {α : Type} (step : EmitT m α) : EmitT m (Except Error α) :=
  tryCatch (Except.ok <$> step) fun
    | .error cause => return .error cause
    | .crash => throw .crash

def registerName (name : String) : EmitT m Unit := do
  let s ← get
  if s.isRegistered name then reject (.duplicateName name)
  else set { s with names := s.names ++ [name] }

def freeName (name : String) : EmitT m Unit := do
  let s ← get
  if s.isRegistered name then set { s with names := s.names.erase name }
  else reject (.unknownName name)

def freshName (name : String) : EmitT m String :=
  return (← get).freshName name

def newTag : EmitT m String := do
  let s ← get
  set { s with nextTag := s.nextTag + 1 }
  return s!"e{s.nextTag}"

def emitInit (command : Command) : EmitT m Unit :=
  modify fun s => { s with init := s.init ++ [command] }

def constantNamed (value : Int32) : Variable :=
  ⟨toString value.toInt⟩

/-- The variable that holds a number. The first use sets it in the initialization. -/
def constant (value : Int32) : EmitT m Variable := do
  let s ← get
  if value ∉ s.constants then
    set { s with constants := s.constants ++ [value] }
    emitInit (.setScore (constantNamed value) value)
  return constantNamed value

end BlockComputer
