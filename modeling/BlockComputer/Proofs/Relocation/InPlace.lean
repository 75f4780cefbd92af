import BlockComputer.Proofs.World.Frame
import BlockComputer.Relocation
import Mathlib.Algebra.Group.Nat.Defs

/-!
Chains with relocations, and what they are meant to do.

An item of a chain is one unit or all the units of a relocation. Running the items in place executes,
where the placeholders of a relocation stand, the row that its anchor stands in; the row may hold
relocations itself. `Piece` is the same on the side of generation: it says which steps emitted the
items.
-/

namespace BlockComputer

inductive Item where
  | unit (command : Command)
  | splice (anchor : Entity) (window : Window)

namespace Item

def copyToBuffer (anchor : Entity) (length : Nat) : Command :=
  .execute [.atEntity anchor]
    (.clone .here (.relative (Int32.ofNat (length - 1)) 0 0) bufferPosition false)

def copyFromBuffer (length : Nat) : Command :=
  .clone bufferPosition (.absolute (Int32.ofNat (length - 1)) (-32) 0) (.relative 1 0 0) true

def neutralize (length : Nat) : Command :=
  .fill (.relative (-1) 0 0) (.relative (-Int32.ofNat length) 0 0) .idleUnit

def spliceCommands (anchor : Entity) (length : Nat) : List Command :=
  [copyToBuffer anchor length, copyFromBuffer length] ++ List.replicate length .placeholder
    ++ [neutralize length]

def commands : Item → List Command
  | .unit c => [c]
  | .splice anchor window => spliceCommands anchor window.length

def FitsIn (bound : Nat) : Item → Prop
  | .unit _ => True
  | .splice _ window => window.length ≤ bound

@[simp] theorem spliceCommands_length (anchor : Entity) (n : Nat) :
    (spliceCommands anchor n).length = n + 3 := by
  simp [spliceCommands]

end Item

def units (items : List Item) : List Command :=
  items.flatMap Item.commands

@[simp] theorem units_nil : units [] = [] := rfl

@[simp] theorem units_cons (item : Item) (items : List Item) :
    units (item :: items) = item.commands ++ units items := by
  simp [units]

@[simp] theorem units_append (left right : List Item) :
    units (left ++ right) = units left ++ units right := by
  simp [units]

@[simp] theorem units_map_unit (cs : List Command) : units (cs.map .unit) = cs := by
  induction cs with
  | nil => rfl
  | cons c cs ih => rw [List.map_cons, units_cons, ih, Item.commands, List.singleton_append]

theorem Item.FitsIn.mono {item : Item} {bound bound' : Nat} (fits : item.FitsIn bound)
    (le : bound ≤ bound') : item.FitsIn bound' := by
  cases item with
  | unit c => trivial
  | splice anchor window => exact Nat.le_trans fits le

theorem Item.length_le_of_mem {item : Item} {items : List Item} (mem : item ∈ items) :
    item.commands.length ≤ (units items).length := by
  induction items with
  | nil => cases mem
  | cons head tail ih =>
    rw [units_cons, List.length_append]
    cases mem with
    | head => omega
    | tail _ later => exact (ih later).trans (Nat.le_add_left _ _)

theorem Item.fitsIn_of_length_le {items : List Item} {bound : Nat}
    (short : (units items).length ≤ bound) : ∀ item ∈ items, item.FitsIn bound := by
  intro item mem
  have le := Item.length_le_of_mem mem
  cases item with
  | unit c => trivial
  | splice anchor window =>
    simp only [Item.commands, Item.spliceCommands_length] at le
    show window.length ≤ bound
    omega

def Site.row (p : Site) (length : Nat) : Set Site :=
  { q | ∃ i < length, q = p.shift i }

def bufferStart : Site :=
  bufferPosition.site

theorem bufferStart_eq : bufferStart = ⟨0, -32, 0⟩ := by
  decide

def bufferRow (length : Nat) : Set Site :=
  bufferStart.row length

def World.HoldsRow (w : World) (p : Site) (commands : List Command) (length : Nat) : Prop :=
  commands.length ≤ length ∧
    ∀ i < length, w.blocks (p.shift i) = commands[i]?.map (Block.unit .chain)

/-- Where a chain with relocations stands, and what its relocations use. -/
structure Territory where
  chain : Set Site
  rows : Set Site
  buffer : Set Site
  chain_rows : ∀ p ∈ chain, p ∉ rows
  chain_buffer : ∀ p ∈ chain, p ∉ buffer
  rows_buffer : ∀ p ∈ rows, p ∉ buffer

/-- Where relocations change blocks. -/
def Territory.hidden (T : Territory) : Set Site :=
  T.chain ∪ T.buffer

def Territory.all (T : Territory) : Set Site :=
  T.hidden ∪ T.rows

/-- Running items one after the other from the site `p` on, with the units of a row executed at the
placeholders of its relocation. Every other unit places no blocks in the territory, and does not copy
from where relocations change blocks. -/
inductive RunsInPlace (T : Territory) : Site → List Item → World → World → Prop
  | nil {p : Site} {w : World} : RunsInPlace T p [] w w
  | unit {p : Site} {c : Command} {others : List Item} {w w' : World}
      (alone : c.LeavesAlone T.hidden p.centre)
      (keeps : c.Keeps T.rows p.centre)
      (rest : RunsInPlace T (p.shift 1) others (c.after p.centre w) w') :
      RunsInPlace T p (.unit c :: others) w w'
  | splice {p : Site} {anchor : Entity} {window : Window} {others row : List Item} {q : Point}
      {w v w' : World}
      (stands : w.locate anchor = some q)
      (holds : w.HoldsRow q.site (units row) window.length)
      (inRows : q.site.row window.length ⊆ T.rows)
      (body : RunsInPlace T (p.shift 2) row w v)
      (rest : RunsInPlace T (p.shift (window.length + 3)) others v w') :
      RunsInPlace T p (.splice anchor window :: others) w w'

theorem RunsInPlace.still {T : Territory} {p : Site} {c : Command} {others : List Item} {w w' : World}
    (still : c.movesBlocks = false) (rest : RunsInPlace T (p.shift 1) others (c.after p.centre w) w') :
    RunsInPlace T p (.unit c :: others) w w' :=
  .unit (Command.leavesAlone_of_not_movesBlocks still _)
    (Command.leavesAlone_of_not_movesBlocks still _).keeps rest

theorem RunsInPlace.commands {T : Territory} {cs : List Command}
    (still : ∀ c ∈ cs, c.movesBlocks = false) (p : Site) (w : World) :
    RunsInPlace T p (cs.map .unit) w (w.runAll p cs) := by
  induction cs generalizing p w with
  | nil => exact .nil
  | cons c cs ih =>
    exact .still (still c List.mem_cons_self) (ih (fun d mem => still d (List.mem_cons_of_mem c mem)) _ _)

theorem RunsInPlace.append {T : Territory} {p : Site} {left right : List Item} {w v w' : World}
    (first : RunsInPlace T p left w v)
    (second : RunsInPlace T (p.shift (units left).length) right v w') :
    RunsInPlace T p (left ++ right) w w' := by
  induction first with
  | nil => simpa using second
  | unit alone keeps _ ih =>
    refine .unit alone keeps (ih ?_)
    simpa [Item.commands, Nat.add_comm] using second
  | splice stands holds inRows body _ _ ih =>
    refine .splice stands holds inRows body (ih ?_)
    simpa [Item.commands] using second

theorem RunsInPlace.kept {T : Territory} {p : Site} {items : List Item} {w w' : World}
    (run : RunsInPlace T p items w w') (bare : w.HasNoBarrel T.all) :
    ∀ q ∈ T.all, w'.blocks q = w.blocks q := by
  induction run with
  | nil => exact fun _ _ => rfl
  | @unit p c others w w' alone keeps _ ih =>
    have kept : ∀ q ∈ T.all, (c.after p.centre w).blocks q = w.blocks q := by
      rintro q (inHidden | inRows)
      · exact alone.keeps w (fun q hq => bare q (.inl hq)) q inHidden
      · exact keeps w (fun q hq => bare q (.inr hq)) q inRows
    intro q hq
    rw [ih (bare.of_kept kept) q hq, kept q hq]
  | splice _ _ _ _ _ ihRow ihOthers =>
    have kept := ihRow bare
    intro q hq
    rw [ihOthers (bare.of_kept kept) q hq, kept q hq]

theorem World.HoldsRow.commands_eq {w : World} {p : Site} {cs ds : List Command} {n : Nat}
    (h : w.HoldsRow p cs n) (h' : w.HoldsRow p ds n) : cs = ds := by
  apply List.ext_getElem?
  intro i
  by_cases less : i < n
  · have same := (h.2 i less).symm.trans (h'.2 i less)
    have injective : Function.Injective (Block.unit .chain) := fun c d equal => by cases equal; rfl
    exact Option.map_injective injective same
  · rw [List.getElem?_eq_none (h.1.trans (Nat.le_of_not_lt less)),
      List.getElem?_eq_none (h'.1.trans (Nat.le_of_not_lt less))]

theorem Item.eq_of_units_eq {row row' : List Item} (short : (units row).length ≤ 1)
    (same : units row = units row') : row = row' := by
  have plain {items : List Item} (short : (units items).length ≤ 1) :
      items = (units items).map .unit := by
    cases items with
    | nil => rfl
    | cons item items =>
      rw [units_cons, List.length_append] at short
      cases item with
      | splice anchor window =>
        simp only [commands, spliceCommands_length] at short
        omega
      | unit c =>
        cases items with
        | nil => rfl
        | cons other items =>
          rw [units_cons, List.length_append] at short
          cases other with
          | unit d =>
            simp only [commands, List.length_singleton] at short
            omega
          | splice anchor window =>
            simp only [commands, spliceCommands_length] at short
            omega
  exact (plain short).trans (same ▸ (plain (same ▸ short)).symm)

/-- With windows of one unit there is only one run in place. -/
theorem RunsInPlace.unique {T : Territory} {p : Site} {items : List Item} {w v v' : World}
    (small : ∀ item ∈ items, item.FitsIn 1) (run : RunsInPlace T p items w v)
    (run' : RunsInPlace T p items w v') : v = v' := by
  induction run generalizing v' with
  | nil =>
    cases run'
    rfl
  | unit _ _ _ ih =>
    cases run' with
    | unit _ _ rest' => exact ih (fun item mem => small item (List.mem_cons_of_mem _ mem)) rest'
  | splice stands holds _ _ _ ihRow ihOthers =>
    cases run' with
    | splice stands' holds' _ body' rest' =>
      cases stands.symm.trans stands'
      -- a row in a window of one unit is told by its units, whatever items they came from
      have short := holds.1.trans (small _ List.mem_cons_self)
      obtain rfl := Item.eq_of_units_eq short (holds.commands_eq holds')
      obtain rfl := ihRow (Item.fitsIn_of_length_le short) body'
      exact ihOthers (fun item mem => small item (List.mem_cons_of_mem _ mem)) rest'

/-- A generation step that emits a part of a chain. -/
inductive Piece where
  | command (c : Command)
  | spliceFrom (anchor : Entity) (window : Window)
  | executeAt (splicer : Splicer) (source : Vector3) (window : Window)

namespace Piece

def emit : Piece → EmitM Unit
  | .command c => BlockComputer.emit c
  | .spliceFrom anchor window => Splicer.spliceFrom anchor window
  | .executeAt splicer source window => splicer.executeAt source window

def storeCommand (e : Entity) (axis : Nat) (value : Variable) : Command :=
  .execute [.storeResult (.entity e (Entity.axisPath axis) .double .one)] (.getScore value)

def items : Piece → List Item
  | .command c => [.unit c]
  | .spliceFrom anchor window => [.splice anchor window]
  | .executeAt splicer source window =>
    [.unit (storeCommand splicer.cloner 0 source.x), .unit (storeCommand splicer.cloner 1 source.y),
      .unit (storeCommand splicer.cloner 2 source.z), .splice splicer.cloner window]

def FitsIn (bound : Nat) (piece : Piece) : Prop :=
  ∀ item ∈ piece.items, item.FitsIn bound

theorem FitsIn.mono {piece : Piece} {bound bound' : Nat} (fits : piece.FitsIn bound)
    (le : bound ≤ bound') : piece.FitsIn bound' :=
  fun item mem => (fits item mem).mono le

end Piece

def greatestWindow : Nat := 2 ^ 31 - 1

theorem toInt_ofNat_of_le {n : Nat} (h : n ≤ greatestWindow) : (Int32.ofNat n).toInt = n := by
  have lt : (n : Int) < 2 ^ 31 := by
    unfold greatestWindow at h
    omega
  exact Int32.toInt_ofInt_of_le (by omega) lt

end BlockComputer
