import BlockComputer.Machine.Basic

/-!
Expansion cards: words 6000 to 7777, in octal.

Bits 9 to 6 choose one of sixteen cards, and bits 5 to 0 are its argument. The chain of a card is the
caller's.
-/

namespace BlockComputer.Machine

variable {m : Type → Type} [Monad m]

def cardSlots : Nat := 16

structure Card (m : Type → Type) where
  name : String
  /-- Emits the card's chain; when it runs, the argument is in its register. -/
  generate : Computer → EmitT m Unit

def printCard (value : Variable) : Card m where
  name := "print"
  generate c := do
    c.getGeneral c.registers.cardArgument value
    emit (.tellScore value)

def newPrintCard : EmitT m (Card m) :=
  inInit do
    return printCard (← Variable.create (← freshName "card_print") 0)

namespace Computer

def cardDispatch (c : Computer) (position : Vector3) (window? : Option Window) : EmitT m Unit := do
  let registers := c.registers
  registers.cardArgument.assign registers.opcode
  registers.cardArgument.bitslice 0 6 false
  match window? with
  | none => return
  | some window => do
    position.z.assign registers.opcode
    position.z.bitslice 6 4 false
    position.z.operate .add (.literal 1)
    c.splicer.executeAt position window

/-- The group of the cards, its dispatch chain first. Without any command in the cards' chains there is
nothing to relocate. -/
def cardGroup (c : Computer) (cards : List (Card m)) : EmitT m ChainGroup := do
  if cardSlots < cards.length then reject (.tooManyCards cards.length cardSlots)
  let position ← inInit (Vector3.create "card_position" Layout.cardGroup)
  let group ← ChainGroup.addRows { label := "card", onlyChain := true }
    (cards.map fun card => (card.name, card.generate c))
  let window? ←
    if group.chains.any (!·.commands.isEmpty) then some <$> (Window.ofGroup group : Except Failure Window)
    else pure none
  return group.prepend (← captureChain "card/dispatch" true (c.cardDispatch position window?))

end Computer

end BlockComputer.Machine
