import BlockComputer.Session.Scope

/-!
Guarded commands and structured control.

A command block can only guard the one command that it holds. A block of commands is guarded by putting
the same guard in front of each of them, so the guard is tested again for every command.
-/

namespace BlockComputer

variable {m : Type → Type} [Monad m]

def emitUnder (qualifiers : List Qualifier) (command : Command) : EmitT m Unit :=
  emit (command.guarded qualifiers)

def emitAllUnder (qualifiers : List Qualifier) (commands : List Command) : EmitT m Unit :=
  emitAll (commands.map (Command.guarded qualifiers))

def emitBlockUnder (qualifiers : List Qualifier) (body : EmitT m Unit) : EmitT m Unit := do
  emitAllUnder qualifiers (← capture body)

/-- The guard of a block that has been emitted, kept for a block that runs otherwise. -/
structure Branch where
  condition : Condition
  negated : Bool
deriving DecidableEq, Repr

namespace Branch

def guard (b : Branch) : Qualifier :=
  if b.negated then .unlessHolds b.condition else .ifHolds b.condition

def opposite (b : Branch) : Branch :=
  { b with negated := !b.negated }

def emitBlock (b : Branch) (body : EmitT m Unit) : EmitT m Branch := do
  emitBlockUnder [b.guard] body
  return b

/-- Emits a block under the opposite guard. It is tested after the first block ran, so a first block
that changes what the condition reads decides over the second one too. -/
def orElse (b : Branch) (body : EmitT m Unit) : EmitT m Unit :=
  emitBlockUnder [b.opposite.guard] body

end Branch

def runIf (condition : Condition) (body : EmitT m Unit) : EmitT m Branch :=
  Branch.emitBlock ⟨condition, false⟩ body

def runUnless (condition : Condition) (body : EmitT m Unit) : EmitT m Branch :=
  Branch.emitBlock ⟨condition, true⟩ body

end BlockComputer
