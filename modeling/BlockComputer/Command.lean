import BlockComputer.Decimal
import BlockComputer.Position
import BlockComputer.Score

/-!
Commands, each for one command block, and the text that each is written as.

A placeholder is a block that does nothing: its text is empty. A guarded command carries its
qualifiers, so what a command means can be read off its structure and not only off its text.
-/

namespace BlockComputer

/-- An entity of the world. Its tag is its own, so the selector finds no other. -/
structure Entity where
  kind : String
  tag : String
deriving DecidableEq, Repr

def Entity.marker : String := "minecraft:marker"

def Entity.selector (e : Entity) : String :=
  s!"@e[tag={e.tag},limit=1]"

inductive Condition where
  | compare (left : Variable) (relation : Comparison) (right : Variable)
  | inRange (score : Variable) (range : Range)
  | present (entity : Entity)
deriving DecidableEq, Repr

namespace Condition

def render : Condition → String
  | .compare left relation right => s!"score {left.render} {relation.symbol} {right.render}"
  | .inRange score range => s!"score {score.render} matches {range.render}"
  | .present entity => s!"entity {entity.selector}"

/-- The test of a variable against a source; a literal becomes the range of fitting numbers. -/
def ofComparison (left : Variable) (relation : Comparison) : Source → Condition
  | .variable right => .compare left relation right
  | .literal k => .inRange left (relation.range k)

end Condition

inductive NumberType where
  | byte
  | short
  | int
  | long
  | float
  | double
deriving DecidableEq, Repr

def NumberType.symbol : NumberType → String
  | .byte => "byte"
  | .short => "short"
  | .int => "int"
  | .long => "long"
  | .float => "float"
  | .double => "double"

structure Slot where
  position : Position
  index : Nat
deriving DecidableEq, Repr

def Slot.path (s : Slot) : String :=
  s!"Items[{s.index}].Count"

inductive StoreTarget where
  | score (target : Variable)
  | entity (target : Entity) (path : String) (type : NumberType) (scale : Decimal)
  | block (position : Position) (path : String) (type : NumberType) (scale : Decimal)
deriving DecidableEq, Repr

namespace StoreTarget

def render : StoreTarget → String
  | .score target => s!"score {target.render}"
  | .entity target path type scale =>
    s!"entity {target.selector} {path} {type.symbol} {scale.render}"
  | .block position path type scale =>
    s!"block {position.render} {path} {type.symbol} {scale.render}"

def slot (s : Slot) : StoreTarget :=
  .block s.position s.path .byte .one

end StoreTarget

inductive Qualifier where
  | atEntity (entity : Entity)
  | asEntity (entity : Entity)
  | ifHolds (condition : Condition)
  | unlessHolds (condition : Condition)
  | storeResult (target : StoreTarget)
  | storeSuccess (target : StoreTarget)
deriving DecidableEq, Repr

def Qualifier.render : Qualifier → String
  | .atEntity entity => s!"at {entity.selector}"
  | .asEntity entity => s!"as {entity.selector}"
  | .ifHolds condition => s!"if {condition.render}"
  | .unlessHolds condition => s!"unless {condition.render}"
  | .storeResult target => s!"store result {target.render}"
  | .storeSuccess target => s!"store success {target.render}"

inductive UnitKind where
  | impulse
  | chain
deriving DecidableEq, Repr

def UnitKind.blockId : UnitKind → String
  | .impulse => "minecraft:command_block[facing=east]"
  | .chain => "minecraft:chain_command_block[facing=east]"

inductive Filling where
  | barrel
  | idleUnit
deriving DecidableEq, Repr

def Filling.render : Filling → String
  | .barrel =>
    let item (slot : Nat) : String :=
      "\x7bSlot:" ++ toString slot ++ "b,id:\"minecraft:stone\",Count:1b\x7d"
    "minecraft:barrel\x7bItems:[" ++ item 0 ++ "," ++ item 1 ++ "]\x7d"
  | .idleUnit => UnitKind.blockId .chain ++ "\x7bauto:1b\x7d"

inductive Command where
  | placeholder
  /-- a command that is known by its text only -/
  | raw (text : String)
  | addObjective
  | setScore (target : Variable) (value : Int32)
  | addScore (target : Variable) (amount : Nat)
  | removeScore (target : Variable) (amount : Nat)
  | resetScore (target : Variable)
  | operateScore (target : Variable) (op : ScoreOp) (source : Variable)
  | getScore (source : Variable)
  | getCount (source : Slot)
  | setCount (target : Slot) (count : Int)
  | fill (first last : Position) (block : Filling)
  | clone (first last target : Position) (masked : Bool)
  | summon (entity : Entity)
  | kill (entity : Entity)
  | teleport (entity : Entity) (target : Position)
  | tellScore (source : Variable)
  | execute (qualifiers : List Qualifier) (command : Command)
deriving DecidableEq, Repr

namespace Command

def ofText (text : String) : Command :=
  if text.isEmpty then .placeholder else .raw text

def render : Command → String
  | .placeholder => ""
  | .raw text => text
  | .addObjective => s!"scoreboard objectives add {objective} dummy"
  | .setScore target value => s!"scoreboard players set {target.render} {value.toInt}"
  | .addScore target amount => s!"scoreboard players add {target.render} {amount}"
  | .removeScore target amount => s!"scoreboard players remove {target.render} {amount}"
  | .resetScore target => s!"scoreboard players reset {target.render}"
  | .operateScore target op source =>
    s!"scoreboard players operation {target.render} {op.symbol} {source.render}"
  | .getScore source => s!"scoreboard players get {source.render}"
  | .getCount source => s!"data get block {source.position.render} {source.path}"
  | .setCount target count =>
    s!"data modify block {target.position.render} {target.path} set value {count}b"
  | .fill first last block => s!"fill {first.render} {last.render} {block.render}"
  | .clone first last target masked =>
    s!"clone {first.render} {last.render} {target.render}" ++ if masked then " masked" else ""
  | .summon entity =>
    s!"summon {entity.kind} ~ ~ ~ " ++ "\x7bTags:['" ++ entity.tag ++ "']\x7d"
  | .kill entity => s!"kill {entity.selector}"
  | .teleport entity target => s!"tp {entity.selector} {target.renderExact}"
  | .tellScore source =>
    "tellraw @a \x7b\"score\":\x7b\"name\":\"" ++ source.name ++ "\",\"objective\":\""
      ++ objective ++ "\"\x7d\x7d"
  | .execute qualifiers command =>
    let parts := String.intercalate " " (qualifiers.map Qualifier.render)
    s!"execute {parts} run {command.render}"

def isPlaceholder : Command → Bool
  | .placeholder => true
  | .raw text => text.isEmpty
  | _ => false

/-- The command under qualifiers. A placeholder stays a placeholder, and no qualifiers change
nothing. -/
def guarded (qualifiers : List Qualifier) (command : Command) : Command :=
  if command.isPlaceholder || qualifiers.isEmpty then command
  else .execute qualifiers command

end Command

end BlockComputer
