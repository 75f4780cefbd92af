import BlockComputer.Chain
import BlockComputer.Text.Quoted

/-!
Listings: the blocks of a structure, one line each.

A chain runs east from its position, and the chains of a group stand one south of the other. A failing
group keeps the chains that were placed before.
-/

namespace BlockComputer

/-- A command block at its position. A unit is active without power exactly when it is a chain unit. -/
structure PlacedUnit where
  position : Position
  kind : UnitKind
  command : Command
deriving DecidableEq, Repr

namespace PlacedUnit

def auto (u : PlacedUnit) : Bool :=
  u.kind == .chain

def data (u : PlacedUnit) : String :=
  "\x7bCommand:" ++ Text.Quoted.quote u.command.render
    ++ (if u.auto then ",auto:1b" else "") ++ "\x7d"

def render (u : PlacedUnit) : String :=
  s!"{u.position.renderValues} {u.kind.blockId} {u.data}"

end PlacedUnit

abbrev Listing : Type := List PlacedUnit

/-- Steps that place units. The listing survives a failure. -/
abbrev PlaceM : Type → Type :=
  ExceptT Failure (StateM Listing)

/-- Units of one kind for these commands, from a position on to the east. The position behind the last
unit is computed as well, so a unit at the eastern end of the world is a crash. -/
def placeUnits (kind : UnitKind) (position : Position) :
    List Command → Except Failure (List PlacedUnit × Position)
  | [] => .ok ([], position)
  | command :: others => do
    let next ← position.add .east
    let (units, behind) ← placeUnits kind next others
    return ({ position, kind, command } :: units, behind)

namespace Chain

/-- The units of a chain. The first one starts the chain unless the chain is only a chain; then it may
also be empty. -/
def place (chain : Chain) (position : Position) : Except Failure (List PlacedUnit) :=
  match chain.commands with
  | [] => if chain.onlyChain then .ok [] else .error (.error (.emptyChain chain.label))
  | first :: others => do
    let kind := if chain.onlyChain then .chain else .impulse
    let (start, next) ← placeUnits kind position [first]
    let (units, _) ← placeUnits .chain next others
    return start ++ units

end Chain

namespace Listing

def writeChain (position : Position) (chain : Chain) : PlaceM Unit := do
  let units ← chain.place position
  modify (· ++ units)

def writeChains (position : Position) : List Chain → PlaceM Unit
  | [] => return
  | chain :: others => do
    writeChain position chain
    writeChains (← position.add .south) others

def writeGroup (position : Position) (group : ChainGroup) : PlaceM Unit :=
  writeChains position group.chains

def ofGroups (groups : List (Position × ChainGroup)) : Except Failure Listing :=
  let (outcome, listing) := (groups.forM fun g => writeGroup g.1 g.2 : PlaceM Unit).run.run []
  outcome.map fun _ => listing

def unitAt? (listing : Listing) (position : Position) : Option PlacedUnit :=
  listing.find? (·.position == position)

def render (listing : Listing) : String :=
  String.join (listing.map fun u => u.render ++ "\n")

end Listing

end BlockComputer
