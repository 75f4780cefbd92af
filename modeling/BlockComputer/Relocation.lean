import BlockComputer.Listing
import BlockComputer.Session.Entity

/-!
Running a chain that is chosen while the machine runs.

There is no computed jump. Instead the chosen chain is copied over placeholder units that lie right
ahead of the running one, runs there as a part of the running chain, and is then overwritten with idle
units. The copy goes through a buffer: its source is found by way of an entity and its target is
relative to the running block, and one command cannot do both.
-/

namespace BlockComputer

structure Window where
  length : Nat
  length_pos : 0 < length
deriving DecidableEq, Repr

namespace Window

def ofLength (length : Nat) : Except Failure Window :=
  if h : 0 < length then .ok ⟨length, h⟩
  else .error (.error (.emptyWindow s!"{length} units"))

def single : Window := ⟨1, Nat.one_pos⟩

def longest (chains : List Chain) : Nat :=
  (chains.map Chain.length).foldl max 0

/-- The smallest window that each of the chains fits in; an error if all are empty. -/
def covering (label : String) (chains : List Chain) : Except Failure Window :=
  if h : 0 < longest chains then .ok ⟨longest chains, h⟩
  else .error (.error (.emptyWindow label))

def verify (w : Window) (chain : Chain) : Except Failure Unit :=
  if w.length < chain.length then
    .error (.error (.windowOverflow chain.label chain.length w.length))
  else .ok ()

def verifyGroup (w : Window) (group : ChainGroup) : Except Failure Unit :=
  group.chains.forM w.verify

def ofGroup (group : ChainGroup) : Except Failure Window := do
  let w ← covering group.label group.chains
  w.verifyGroup group
  return w

end Window

/-- The place that every relocation copies through. -/
def bufferPosition : Position := .absolute 0 (-32) 0

structure Splicer where
  cloner : Entity
deriving DecidableEq, Repr

namespace Splicer

variable {m : Type → Type} [Monad m]

def create : EmitT m Splicer :=
  inInit do
    let cloner ← newMarker
    cloner.create
    return { cloner }

/-- Copies the row that the anchor stands at the start of into the buffer, from there ahead of the
running unit, and overwrites it with idle units once it has run. The window is counted in 32 bits. -/
def spliceFrom (anchor : Entity) (window : Window) : EmitT m Unit := do
  let length := Int32.ofNat window.length
  let reach ← narrow (length.toInt - 1)
  let extent := Position.absolute reach 0 0
  emitUnder [.atEntity anchor] (.clone .here (← Position.here.add extent) bufferPosition false)
  emit (.clone bufferPosition (← bufferPosition.add extent) (.relative 1 0 0) true)
  emitAll (List.replicate window.length .placeholder)
  emit (.fill (.relative (-1) 0 0) (.relative (-length) 0 0) .idleUnit)

def executeAt (s : Splicer) (source : Vector3) (window : Window) : EmitT m Unit := do
  s.cloner.moveTo source
  spliceFrom s.cloner window

end Splicer

end BlockComputer
