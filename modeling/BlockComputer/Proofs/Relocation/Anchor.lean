import BlockComputer.Proofs.Relocation.InPlace
import BlockComputer.Proofs.World.Touching
import Mathlib.Tactic.NormNum

/-!
Sending an entity to a place that is known only when the chain runs.

Three stores put an entity on the corner of the block that three scores name. A relocation that follows
runs the row that stands there.
-/

namespace BlockComputer

theorem Point.site_corner (x y z : Int) : Point.site ⟨x, y, z⟩ = ⟨x, y, z⟩ := by
  simp [Point.site, Rat.floor_intCast]

@[simp] theorem Position.siteFrom_here (q : Point) : Position.here.siteFrom q = q.site := by
  simp [here, siteFrom_relative]

namespace World

def siteOf (w : World) (position : Vector3) : Site :=
  ⟨(w.score position.x).toInt, (w.score position.y).toInt, (w.score position.z).toInt⟩

def Stands (w : World) (e : Entity) (p : Site) : Prop :=
  ∃ q, w.locate e = some q ∧ q.site = p

@[simp] theorem stands_setScore {w : World} {v : Variable} {n : Int32} {e : Entity} {p : Site} :
    (w.setScore v n).Stands e p ↔ w.Stands e p :=
  Iff.rfl

@[simp] theorem locate_moveEntity (w : World) (e : Entity) (move : Point → Point) :
    (w.moveEntity e.tag move).locate e = (w.locate e).map move := by
  rw [locate, moveEntity, Being.first?_moveFirst_self, locate]
  cases Being.first? e.tag w.entities <;> rfl

end World

theorem Command.after_teleport {w : World} {e : Entity} (exists_ : (w.locate e).isSome)
    (target : Position) (origin : Point) :
    (Command.teleport e target).after origin w =
      w.moveEntity e.tag fun _ => target.pointFrom origin := by
  rw [after, run, if_pos exists_]

namespace Piece

theorem after_storeCommand {axis : Nat} (small : axis ∈ [0, 1, 2]) (e : Entity) (v : Variable)
    (origin : Point) (w : World) :
    (storeCommand e axis v).after origin w =
      w.moveEntity e.tag (·.setAxis axis (w.score v).toInt) := by
  have found : ([0, 1, 2].find? fun n => Entity.axisPath n == Entity.axisPath axis) = some axis := by
    revert axis
    decide
  have one : Decimal.one.value = 1 := by norm_num [Decimal.value, Decimal.one]
  rw [storeCommand, Command.after, Command.run_execute]
  simp only [Qualifier.enter, Option.map_some, StoreTarget.destination?, found, List.foldl_cons,
    List.foldl_nil, Pending.settle, World.keep, one, mul_one, Command.run, Command.after]
  rfl

def moveCommands (e : Entity) (target : Vector3) : List Command :=
  [storeCommand e 0 target.x, storeCommand e 1 target.y, storeCommand e 2 target.z]

theorem sameBut_moveCommands (e : Entity) (target : Vector3) (p : Site) (w : World) :
    w.SameBut [] (w.runAll p (moveCommands e target)) :=
  World.sameBut_of_staysIn rfl p w

theorem stands_moveCommands {w : World} {e : Entity} (exists_ : (w.locate e).isSome)
    (target : Vector3) (p : Site) : (w.runAll p (moveCommands e target)).Stands e (w.siteOf target) := by
  obtain ⟨q, here⟩ := Option.isSome_iff_exists.1 exists_
  refine ⟨⟨(w.score target.x).toInt, (w.score target.y).toInt, (w.score target.z).toInt⟩, ?_,
    Point.site_corner _ _ _⟩
  simp only [moveCommands, World.runAll_cons, World.runAll_nil]
  rw [after_storeCommand (by decide), after_storeCommand (by decide), after_storeCommand (by decide)]
  simp [here, Point.setAxis]

end Piece

end BlockComputer
