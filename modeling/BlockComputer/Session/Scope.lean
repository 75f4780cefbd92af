import BlockComputer.Session

/-!
Scopes: where emitted commands go.

A command goes to the innermost open scope. A body runs in a scope of its own, which is taken off again
with all scopes that the body left open above it, whether the body succeeds or not.
-/

namespace BlockComputer

variable {m : Type → Type} [Monad m]

def enter : EmitT m Unit :=
  modify fun s => { s with scopes := [] :: s.scopes }

def leave : EmitT m (List Command) := do
  let s ← get
  match s.scopes with
  | [] => reject .noActiveScope
  | commands :: others =>
    set { s with scopes := others }
    return commands

/-- Appends commands to the innermost scope; without any, no scope is needed. -/
def emitAll (commands : List Command) : EmitT m Unit := do
  let s ← get
  match commands, s.scopes with
  | [], _ => return
  | _, [] => reject .noActiveScope
  | _, scope :: others => set { s with scopes := (scope ++ commands) :: others }

def emit (command : Command) : EmitT m Unit :=
  emitAll [command]

def unwindTo (depth : Nat) : EmitT m Unit :=
  modify fun s => { s with scopes := s.scopes.drop (s.scopes.length - depth) }

def inScope {α : Type} (body : EmitT m α) : EmitT m (α × List Command) := do
  let depth := (← get).depth
  enter
  let outcome ← attempt body
  unwindTo (depth + 1)
  let commands ← leave
  match outcome with
  | .ok value => return (value, commands)
  | .error cause => reject cause

def capture (body : EmitT m Unit) : EmitT m (List Command) :=
  Prod.snd <$> inScope body

def captureChain (label : String) (onlyChain : Bool) (body : EmitT m Unit) : EmitT m Chain :=
  return { label, commands := ← capture body, onlyChain }

def inInit {α : Type} (body : EmitT m α) : EmitT m α := do
  let (value, commands) ← inScope body
  modify fun s => { s with init := s.init ++ commands }
  return value

def ChainGroup.addCaptured (g : ChainGroup) (name : String) (body : EmitT m Unit) :
    EmitT m ChainGroup :=
  return g.add (← captureChain s!"{g.label}/{name}" g.onlyChain body)

def ChainGroup.addRows (g : ChainGroup) (rows : List (String × EmitT m Unit)) : EmitT m ChainGroup :=
  rows.foldlM (fun g row => g.addCaptured row.1 row.2) g

end BlockComputer
