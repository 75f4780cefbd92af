import BlockComputer.Proofs.World.Basic
import BlockComputer.Session.Entity

/-!
What one command does to the world, and how a chain of command blocks runs.

A command runs at a point, and may have a result. It fails without one, and a failing command changes
nothing. Qualifiers are read from left to right; where a result goes is settled before the command
runs, at the point that holds there. A chain runs east from its start as long as it finds chain
units; the block that is found when a unit's turn comes is the one that runs.
-/

namespace BlockComputer

def Condition.holds (w : World) : Condition → Bool
  | .compare left relation right => relation.holds (w.score left) (w.score right)
  | .inRange score range => range.contains (w.score score).toInt
  | .present entity => (w.locate entity).isSome

inductive Destination where
  | score (target : Variable)
  | coordinate (tag : String) (axis : Nat) (scale : ℚ)
  | count (site : Site) (slot : Nat)
deriving DecidableEq, Repr

def StoreTarget.destination? (origin : Point) : StoreTarget → Option Destination
  | .score target => some (.score target)
  | .entity target path _ scale =>
    ([0, 1, 2].find? fun axis => Entity.axisPath axis == path).map
      (.coordinate target.tag · scale.value)
  | .block position path _ _ =>
    ([0, 1].find? fun index => Slot.path ⟨position, index⟩ == path).map
      (.count (position.siteFrom origin))

def World.keep (w : World) (value : Int32) : Destination → World
  | .score target => w.setScore target value
  | .coordinate tag axis scale => w.moveEntity tag (·.setAxis axis (value.toInt * scale))
  | .count site slot => w.setCount site slot value

/-- A destination that waits for the result of a command. -/
structure Pending where
  success : Bool
  destination? : Option Destination
deriving DecidableEq, Repr

def Pending.settle (outcome : Option Int32) (w : World) (p : Pending) : World :=
  match p.destination? with
  | none => w
  | some d => w.keep (if p.success then (if outcome.isSome then 1 else 0) else outcome.getD 0) d

/-- The point at which the command behind the qualifiers runs, and what waits for its result; `none`
if it does not run. -/
def Qualifier.enter (w : World) : List Qualifier → Point → Option (Point × List Pending)
  | [], origin => some (origin, [])
  | .atEntity e :: others, _ => (w.locate e).bind (enter w others)
  | .asEntity e :: others, origin => if (w.locate e).isSome then enter w others origin else none
  | .ifHolds c :: others, origin => if c.holds w then enter w others origin else none
  | .unlessHolds c :: others, origin => if c.holds w then none else enter w others origin
  | .storeResult t :: others, origin =>
    (enter w others origin).map fun r => (r.1, ⟨false, t.destination? origin⟩ :: r.2)
  | .storeSuccess t :: others, origin =>
    (enter w others origin).map fun r => (r.1, ⟨true, t.destination? origin⟩ :: r.2)

namespace Site

def IsWithin (p a b : Site) : Prop :=
  min a.x b.x ≤ p.x ∧ p.x ≤ max a.x b.x ∧ min a.y b.y ≤ p.y ∧ p.y ≤ max a.y b.y
    ∧ min a.z b.z ≤ p.z ∧ p.z ≤ max a.z b.z

instance (p a b : Site) : Decidable (p.IsWithin a b) :=
  inferInstanceAs (Decidable (_ ∧ _))

def leastCorner (a b : Site) : Site :=
  ⟨min a.x b.x, min a.y b.y, min a.z b.z⟩

def span (a b : Int) : List Int :=
  (List.range ((b - a).natAbs + 1)).map fun (n : Nat) => min a b + n

def box (a b : Site) : List Site :=
  (span a.x b.x).flatMap fun x => (span a.y b.y).flatMap fun y =>
    (span a.z b.z).map fun z => ⟨x, y, z⟩

def origin (a b target p : Site) : Site :=
  let low := leastCorner a b
  ⟨p.x - target.x + low.x, p.y - target.y + low.y, p.z - target.z + low.z⟩

end Site

namespace World

def fill (w : World) (a b : Site) (block : Block) : World :=
  { w with blocks := fun p => if p.IsWithin a b then some block else w.blocks p }

def clone (w : World) (a b target : Site) (masked : Bool) : World :=
  { w with
    blocks := fun p =>
      let source := Site.origin a b target p
      if source.IsWithin a b then
        match w.blocks source with
        | some block => some block
        | none => if masked then w.blocks p else none
      else w.blocks p }

end World

def Command.run (origin : Point) (w : World) : Command → World × Option Int32
  | .placeholder => (w, none)
  | .raw text => if text.isEmpty then (w, none) else (w.announce text, some 1)
  | .addObjective => (w, some 0)
  | .setScore target value => (w.setScore target value, some value)
  | .addScore target amount =>
    let value := w.score target + Int32.ofNat amount
    (w.setScore target value, some value)
  | .removeScore target amount =>
    let value := w.score target - Int32.ofNat amount
    (w.setScore target value, some value)
  | .resetScore target => (w.resetScore target, some 0)
  | .operateScore target op source =>
    let (a, b) := (w.score target, w.score source)
    let value := op.apply a b
    let w := if op = .swap then w.setScore source a else w
    (w.setScore target value, some value)
  | .getScore source => (w, w.scores source)
  | .getCount source => (w, w.count? (source.position.siteFrom origin) source.index)
  | .setCount target count =>
    let site := target.position.siteFrom origin
    match w.count? site target.index with
    | some _ => (w.setCount site target.index (Int32.ofInt count), some 1)
    | none => (w, none)
  | .fill first last block =>
    let (a, b) := (first.siteFrom origin, last.siteFrom origin)
    (w.fill a b block.block, some (Int32.ofNat (Site.box a b).length))
  | .clone first last target masked =>
    let (a, b) := (first.siteFrom origin, last.siteFrom origin)
    (w.clone a b (target.siteFrom origin) masked,
      some (Int32.ofNat ((Site.box a b).countP fun p => (w.blocks p).isSome)))
  | .summon entity => ({ w with entities := w.entities ++ [⟨entity.tag, origin⟩] }, some 1)
  | .kill entity =>
    if (w.locate entity).isSome then
      ({ w with entities := w.entities.eraseP (·.tag == entity.tag) }, some 1)
    else (w, none)
  | .teleport entity target =>
    if (w.locate entity).isSome then
      (w.moveEntity entity.tag fun _ => target.pointFrom origin, some 1)
    else (w, none)
  | .tellScore source => (w.announce (toString (w.score source).toInt), some 1)
  | .execute qualifiers command =>
    match Qualifier.enter w qualifiers origin with
    | none => (w, none)
    | some (origin, pending) =>
      let (w, outcome) := command.run origin w
      (pending.foldl (Pending.settle outcome) w, outcome)

def Command.after (c : Command) (origin : Point) (w : World) : World :=
  (c.run origin w).1

def World.runAll (p : Site) (w : World) : List Command → World
  | [] => w
  | c :: others => World.runAll (p.shift 1) (c.after p.centre w) others

namespace World

/-- The command that the chain which was started at `start` runs at a site: that of any unit at its
start, and that of a chain unit elsewhere. -/
def commandAt? (w : World) (start p : Site) : Option Command :=
  match w.blocks p with
  | some (.unit kind command) => if p = start ∨ kind = .chain then some command else none
  | _ => none

/-- Runs the chain that was started at `start` on from a site until no unit follows; `none` if it is
still running after `limit` units. -/
def runFrom (start : Site) : (limit : Nat) → Site → World → Option World
  | 0, _, _ => none
  | limit + 1, p, w =>
    match w.commandAt? start p with
    | none => some w
    | some c => runFrom start limit (p.shift 1) (c.after p.centre w)

def runChain (limit : Nat) (start : Site) (w : World) : Option World :=
  runFrom start limit start w

end World

@[simp] theorem Command.after_placeholder (origin : Point) (w : World) :
    Command.placeholder.after origin w = w := rfl

@[simp] theorem Command.after_setScore (origin : Point) (w : World) (v : Variable) (n : Int32) :
    (Command.setScore v n).after origin w = w.setScore v n := rfl

@[simp] theorem Command.after_addScore (origin : Point) (w : World) (v : Variable) (n : Nat) :
    (Command.addScore v n).after origin w = w.setScore v (w.score v + Int32.ofNat n) := rfl

@[simp] theorem Command.after_removeScore (origin : Point) (w : World) (v : Variable) (n : Nat) :
    (Command.removeScore v n).after origin w = w.setScore v (w.score v - Int32.ofNat n) := rfl

theorem Command.after_operateScore (origin : Point) (w : World) (v u : Variable) {op : ScoreOp}
    (ne : op ≠ .swap) :
    (Command.operateScore v op u).after origin w =
      w.setScore v (op.apply (w.score v) (w.score u)) := by
  simp [Command.after, Command.run, ne]

@[simp] theorem World.runAll_nil (p : Site) (w : World) : w.runAll p [] = w := rfl

@[simp] theorem World.runAll_cons (p : Site) (w : World) (c : Command) (cs : List Command) :
    w.runAll p (c :: cs) = (c.after p.centre w).runAll (p.shift 1) cs := rfl

theorem World.runAll_append (p : Site) (w : World) (cs ds : List Command) :
    w.runAll p (cs ++ ds) = (w.runAll p cs).runAll (p.shift cs.length) ds := by
  induction cs generalizing p w with
  | nil => simp
  | cons c cs ih =>
    rw [List.cons_append, runAll_cons, ih, runAll_cons, Site.shift_shift, List.length_cons,
      Nat.add_comm 1]

end BlockComputer
