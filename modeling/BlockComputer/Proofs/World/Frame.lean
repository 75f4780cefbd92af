import BlockComputer.Proofs.World.Execution
import Mathlib.Data.Set.Basic

/-!
What a command leaves alone.

A region of command blocks and air can be hidden from a command: the command does the same whatever
stands there, and changes none of it. Every command that moves no blocks leaves every region without
barrels alone, because nothing but a fill or a copy reads or writes a block that is no barrel.
-/

namespace BlockComputer

structure World.AgreeOutside (R : Set Site) (u v : World) : Prop where
  scores : u.scores = v.scores
  entities : u.entities = v.entities
  shown : u.shown = v.shown
  blocks : ∀ p ∉ R, u.blocks p = v.blocks p

def World.HasNoBarrel (w : World) (R : Set Site) : Prop :=
  ∀ p ∈ R, ∀ counts, w.blocks p ≠ some (.barrel counts)

/-- The worlds differ at most in a region, and neither has a barrel there. -/
structure World.Twins (R : Set Site) (u v : World) : Prop extends World.AgreeOutside R u v where
  left_bare : u.HasNoBarrel R
  right_bare : v.HasNoBarrel R

/-- Two worlds stay the same outside a region, and the first one keeps its blocks there. -/
structure World.StayTwins (R : Set Site) (u v u' v' : World) : Prop extends
    World.AgreeOutside R u' v' where
  kept : ∀ p ∈ R, u'.blocks p = u.blocks p

/-- The command, run at a point, neither reads nor changes a block of the region. -/
def Command.LeavesAlone (R : Set Site) (origin : Point) (c : Command) : Prop :=
  ∀ u v : World, u.Twins R v →
    u.StayTwins R v (c.after origin u) (c.after origin v) ∧
      (c.run origin u).2 = (c.run origin v).2

/-- The command, run at a point, changes no block of the region. -/
def Command.Keeps (R : Set Site) (origin : Point) (c : Command) : Prop :=
  ∀ w : World, w.HasNoBarrel R → ∀ p ∈ R, (c.after origin w).blocks p = w.blocks p

def Command.movesBlocks : Command → Bool
  | .fill .. | .clone .. => true
  | .execute _ c => c.movesBlocks
  | _ => false

theorem Command.movesBlocks_guarded (qs : List Qualifier) (c : Command) :
    (c.guarded qs).movesBlocks = c.movesBlocks := by
  unfold guarded
  split <;> rfl

namespace World

variable {R : Set Site} {u v w : World}

theorem AgreeOutside.refl (R : Set Site) (w : World) : w.AgreeOutside R w :=
  ⟨rfl, rfl, rfl, fun _ _ => rfl⟩

theorem AgreeOutside.symm (h : u.AgreeOutside R v) : v.AgreeOutside R u :=
  ⟨h.scores.symm, h.entities.symm, h.shown.symm, fun p hp => (h.blocks p hp).symm⟩

theorem AgreeOutside.score (h : u.AgreeOutside R v) (x : Variable) : u.score x = v.score x := by
  rw [World.score, World.score, h.scores]

theorem AgreeOutside.locate (h : u.AgreeOutside R v) (e : Entity) : u.locate e = v.locate e := by
  rw [World.locate, World.locate, h.entities]

theorem AgreeOutside.holds (h : u.AgreeOutside R v) (c : Condition) : c.holds u = c.holds v := by
  cases c <;> simp [Condition.holds, h.score, h.locate]

theorem AgreeOutside.enter (h : u.AgreeOutside R v) (qs : List Qualifier) (origin : Point) :
    Qualifier.enter u qs origin = Qualifier.enter v qs origin := by
  induction qs generalizing origin with
  | nil => rfl
  | cons q qs ih =>
    cases q with
    | atEntity e =>
      simp only [Qualifier.enter, h.locate]
      congr 1
      funext q
      exact ih q
    | asEntity e => simp [Qualifier.enter, h.locate, ih]
    | ifHolds c => simp [Qualifier.enter, h.holds, ih]
    | unlessHolds c => simp [Qualifier.enter, h.holds, ih]
    | storeResult t => simp [Qualifier.enter, ih]
    | storeSuccess t => simp [Qualifier.enter, ih]

theorem Twins.symm (h : u.Twins R v) : v.Twins R u :=
  ⟨h.toAgreeOutside.symm, h.right_bare, h.left_bare⟩

theorem HasNoBarrel.of_kept (h : u.HasNoBarrel R) (kept : ∀ p ∈ R, w.blocks p = u.blocks p) :
    w.HasNoBarrel R := by
  intro p hp counts
  rw [kept p hp]
  exact h p hp counts

theorem HasNoBarrel.count? (h : w.HasNoBarrel R) {p : Site} (hp : p ∈ R) (slot : Nat) :
    w.count? p slot = none := by
  unfold World.count?
  split
  · next counts found => exact absurd found (h p hp counts)
  · rfl

theorem HasNoBarrel.setCount (h : w.HasNoBarrel R) {p : Site} (hp : p ∈ R) (slot : Nat)
    (count : Int32) : w.setCount p slot count = w := by
  unfold World.setCount
  split
  · next counts found => exact absurd found (h p hp counts)
  · rfl

theorem Twins.count? (h : u.Twins R v) (p : Site) (slot : Nat) :
    u.count? p slot = v.count? p slot := by
  by_cases hp : p ∈ R
  · rw [h.left_bare.count? hp, h.right_bare.count? hp]
  · simp [World.count?, h.blocks p hp]

theorem Twins.step {u' v' : World} (h : u.Twins R v) (left : u.StayTwins R v u' v')
    (right : v.StayTwins R u v' u') : u'.Twins R v' :=
  ⟨left.toAgreeOutside, h.left_bare.of_kept left.kept, h.right_bare.of_kept right.kept⟩

theorem StayTwins.refl (h : u.AgreeOutside R v) : u.StayTwins R v u v :=
  ⟨h, fun _ _ => rfl⟩

theorem StayTwins.setScore (h : u.AgreeOutside R v) (x : Variable) (n : Int32) :
    u.StayTwins R v (u.setScore x n) (v.setScore x n) :=
  ⟨⟨by simp [World.setScore, h.scores], h.entities, h.shown, h.blocks⟩, fun _ _ => rfl⟩

theorem StayTwins.moveEntity (h : u.AgreeOutside R v) (tag : String) (move : Point → Point) :
    u.StayTwins R v (u.moveEntity tag move) (v.moveEntity tag move) :=
  ⟨⟨h.scores, by simp [World.moveEntity, h.entities], h.shown, h.blocks⟩, fun _ _ => rfl⟩

theorem StayTwins.setCount (h : u.Twins R v) (p : Site) (slot : Nat) (count : Int32) :
    u.StayTwins R v (u.setCount p slot count) (v.setCount p slot count) := by
  by_cases hp : p ∈ R
  · rw [h.left_bare.setCount hp, h.right_bare.setCount hp]
    exact .refl h.toAgreeOutside
  · unfold World.setCount
    rw [← h.blocks p hp]
    split
    · refine ⟨⟨h.scores, h.entities, h.shown, fun q hq => ?_⟩, fun q hq => ?_⟩
      · by_cases same : q = p
        · simp [World.setBlock, same]
        · simp [World.setBlock, Function.update_of_ne same, h.blocks q hq]
      · have ne : q ≠ p := fun same => hp (same ▸ hq)
        simp [World.setBlock, Function.update_of_ne ne]
    · exact .refl h.toAgreeOutside

theorem StayTwins.keep (h : u.Twins R v) (n : Int32) (d : Destination) :
    u.StayTwins R v (u.keep n d) (v.keep n d) := by
  cases d with
  | score target => exact .setScore h.toAgreeOutside target n
  | coordinate tag axis scale => exact .moveEntity h.toAgreeOutside tag _
  | count site slot => exact .setCount h site slot n

theorem StayTwins.settle (h : u.Twins R v) (outcome : Option Int32) (p : Pending) :
    u.StayTwins R v (p.settle outcome u) (p.settle outcome v) := by
  unfold Pending.settle
  split
  · exact .refl h.toAgreeOutside
  · exact .keep h _ _

theorem StayTwins.trans {u' v' u'' v'' : World} (first : u.StayTwins R v u' v')
    (second : u'.StayTwins R v' u'' v'') : u.StayTwins R v u'' v'' :=
  ⟨second.toAgreeOutside, fun p hp => (second.kept p hp).trans (first.kept p hp)⟩

theorem StayTwins.settleAll (h : u.Twins R v) (outcome : Option Int32) (ps : List Pending) :
    u.StayTwins R v (ps.foldl (Pending.settle outcome) u) (ps.foldl (Pending.settle outcome) v) := by
  induction ps generalizing u v with
  | nil => exact .refl h.toAgreeOutside
  | cons p ps ih =>
    have left := StayTwins.settle h outcome p
    have right := StayTwins.settle h.symm outcome p
    exact left.trans (ih (h.step left right))

end World

namespace Command

variable {R : Set Site}

theorem LeavesAlone.after {c : Command} {origin : Point} {u v : World} (h : c.LeavesAlone R origin)
    (twins : u.Twins R v) : (c.after origin u).Twins R (c.after origin v) :=
  twins.step (h u v twins).1 (h v u twins.symm).1

theorem LeavesAlone.keeps {c : Command} {origin : Point} (h : c.LeavesAlone R origin) :
    c.Keeps R origin :=
  fun w bare => (h w w ⟨.refl R w, bare, bare⟩).1.kept

theorem run_execute (qs : List Qualifier) (c : Command) (origin : Point) (w : World) :
    (execute qs c).run origin w =
      match Qualifier.enter w qs origin with
      | none => (w, none)
      | some (inner, pending) =>
        (pending.foldl (Pending.settle (c.run inner w).2) (c.after inner w), (c.run inner w).2) := by
  conv_lhs => rw [run]
  cases Qualifier.enter w qs origin <;> rfl

theorem LeavesAlone.execute {c : Command} (h : ∀ origin, c.LeavesAlone R origin)
    (qs : List Qualifier) (origin : Point) : (Command.execute qs c).LeavesAlone R origin := by
  intro u v twins
  rw [Command.after, Command.after, run_execute, run_execute, ← twins.enter qs origin]
  cases Qualifier.enter u qs origin with
  | none => exact ⟨.refl twins.toAgreeOutside, rfl⟩
  | some inner =>
    obtain ⟨left, same⟩ := h inner.1 u v twins
    have settled := World.StayTwins.settleAll ((h inner.1).after twins) (c.run inner.1 u).2 inner.2
    refine ⟨left.trans ?_, same⟩
    simpa only [same] using settled

/-- A command that moves no blocks leaves every region alone. -/
theorem leavesAlone_of_not_movesBlocks {c : Command} (still : c.movesBlocks = false)
    (origin : Point) : c.LeavesAlone R origin := by
  induction c generalizing origin with
  | execute qs c ih => exact .execute (fun inner => ih still inner) qs origin
  | fill | clone => cases still
  | placeholder | addObjective => exact fun u v twins => ⟨.refl twins.toAgreeOutside, rfl⟩
  | raw text =>
    intro u v twins
    by_cases empty : text.isEmpty
    · simpa [after, run, empty] using World.StayTwins.refl twins.toAgreeOutside
    · simp only [after, run, empty, Bool.false_eq_true, if_false, and_true]
      exact ⟨⟨twins.scores, twins.entities, by simp [World.announce, twins.shown], twins.blocks⟩,
        fun _ _ => rfl⟩
  | setScore target value =>
    exact fun u v twins => ⟨.setScore twins.toAgreeOutside target value, rfl⟩
  | addScore target amount | removeScore target amount =>
    intro u v twins
    simp only [after, run, twins.score, and_true]
    exact .setScore twins.toAgreeOutside target _
  | resetScore target =>
    exact fun u v twins => ⟨⟨⟨by simp [after, run, World.resetScore, twins.scores], twins.entities,
      twins.shown, twins.blocks⟩, fun _ _ => rfl⟩, rfl⟩
  | operateScore target op source =>
    intro u v twins
    simp only [after, run, twins.score, and_true]
    by_cases swap : op = .swap
    · simp only [swap, if_true]
      have first := World.StayTwins.setScore twins.toAgreeOutside source (v.score target)
      exact first.trans (.setScore first.toAgreeOutside target _)
    · simp only [swap, if_false]
      exact .setScore twins.toAgreeOutside target _
  | getScore source =>
    exact fun u v twins => ⟨.refl twins.toAgreeOutside, by simp [run, twins.scores]⟩
  | getCount source =>
    exact fun u v twins => ⟨.refl twins.toAgreeOutside, twins.count? _ _⟩
  | setCount target count =>
    intro u v twins
    simp only [after, run, ← twins.count?]
    split
    · exact ⟨.setCount twins _ _ _, rfl⟩
    · exact ⟨.refl twins.toAgreeOutside, rfl⟩
  | summon e =>
    exact fun u v twins => ⟨⟨⟨twins.scores, by simp [after, run, twins.entities], twins.shown,
      twins.blocks⟩, fun _ _ => rfl⟩, rfl⟩
  | kill e =>
    intro u v twins
    simp only [after, run, twins.locate]
    split
    · exact ⟨⟨⟨twins.scores, by simp [twins.entities], twins.shown, twins.blocks⟩, fun _ _ => rfl⟩,
        rfl⟩
    · exact ⟨.refl twins.toAgreeOutside, rfl⟩
  | teleport e target =>
    intro u v twins
    simp only [after, run, twins.locate]
    split
    · exact ⟨.moveEntity twins.toAgreeOutside _ _, rfl⟩
    · exact ⟨.refl twins.toAgreeOutside, rfl⟩
  | tellScore source =>
    exact fun u v twins => ⟨⟨⟨twins.scores, twins.entities,
      by simp [after, run, World.announce, twins.shown, twins.score], twins.blocks⟩,
      fun _ _ => rfl⟩, rfl⟩

end Command

end BlockComputer
