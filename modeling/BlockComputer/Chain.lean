import BlockComputer.Command

/-!
Chains of commands, and groups of chains.

A chain becomes a row of command blocks, and a group a field of rows. A chain that is only a chain has
no start block: it runs after it has been copied into another chain.
-/

namespace BlockComputer

structure Chain where
  label : String := ""
  commands : List Command := []
  onlyChain : Bool := false
deriving DecidableEq, Repr

def Chain.length (c : Chain) : Nat :=
  c.commands.length

structure ChainGroup where
  label : String
  onlyChain : Bool
  chains : List Chain := []
deriving DecidableEq, Repr

namespace ChainGroup

def add (g : ChainGroup) (chain : Chain) : ChainGroup :=
  { g with chains := g.chains ++ [chain] }

/-- The group with a chain in front of the one at `index`; a crash if `index` is past the end. -/
def insert (g : ChainGroup) (index : Nat) (chain : Chain) : Except Failure ChainGroup :=
  if index ≤ g.chains.length then
    .ok { g with chains := g.chains.take index ++ chain :: g.chains.drop index }
  else .error .crash

def prepend (g : ChainGroup) (chain : Chain) : ChainGroup :=
  { g with chains := chain :: g.chains }

end ChainGroup

end BlockComputer
