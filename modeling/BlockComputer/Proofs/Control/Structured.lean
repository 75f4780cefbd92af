import BlockComputer.Proofs.Emission.Basic
import BlockComputer.Proofs.World.Execution
import Mathlib.Data.List.Forall2

/-!
Structured control is compiled correctly.

Nested blocks become one flat list of commands, each under the guards of the blocks around it, and each
guard is tested again before every command. The list does what the nested program does, where every
condition is tested once, as long as no command in a branch writes what the conditions around it read.
-/

namespace BlockComputer

namespace Command

def isScore : Command → Bool
  | .setScore .. | .addScore .. | .removeScore .. | .resetScore _ | .operateScore .. | .getScore _ =>
    true
  | _ => false

def writes : Command → List Variable
  | .setScore v _ | .addScore v _ | .removeScore v _ | .resetScore v => [v]
  | .operateScore v op u => if op = .swap then [v, u] else [v]
  | _ => []

def unguarded : Command → Command
  | .execute _ c => c.unguarded
  | c => c

theorem unguarded_guarded (qs : List Qualifier) (c : Command) :
    (c.guarded qs).unguarded = c.unguarded := by
  unfold guarded
  split
  · rfl
  · rfl

theorem after_eq_of_isScore {c : Command} (score : c.isScore = true) (origin origin' : Point)
    (w : World) : c.after origin w = c.after origin' w := by
  cases c <;> first | rfl | cases score

theorem scores_after {c : Command} (score : c.isScore = true) {v : Variable} (other : v ∉ c.writes)
    (origin : Point) (w : World) : (c.after origin w).score v = w.score v := by
  cases c with
  | setScore u n | addScore u n | removeScore u n =>
    have ne : v ≠ u := by simpa [writes] using other
    exact World.score_setScore_of_ne _ ne _
  | resetScore u =>
    have ne : v ≠ u := by simpa [writes] using other
    simp [after, run, World.resetScore, World.score, Function.update_of_ne ne]
  | operateScore u op s =>
    by_cases swap : op = .swap
    · have ne : v ≠ u ∧ v ≠ s := by simpa [writes, swap] using other
      simp [after, run, swap, World.score_setScore_of_ne _ ne.1, World.score_setScore_of_ne _ ne.2]
    · have ne : v ≠ u := by simpa [writes, swap] using other
      rw [after_operateScore _ _ _ _ swap, World.score_setScore_of_ne _ ne]
  | getScore u => rfl
  | _ => cases score

theorem entities_after {c : Command} (score : c.isScore = true) (origin : Point) (w : World) :
    (c.after origin w).entities = w.entities := by
  cases c with
  | operateScore u op s => by_cases swap : op = .swap <;> simp [after, run, swap]
  | setScore | addScore | removeScore | resetScore | getScore => rfl
  | _ => cases score

end Command

def Condition.reads : Condition → List Variable
  | .compare left _ right => [left, right]
  | .inRange v _ => [v]
  | .present _ => []

def Branch.holds (b : Branch) (w : World) : Bool :=
  b.condition.holds w != b.negated

def Branch.run (b : Branch) (body : EmitM Unit) : EmitM Branch :=
  if b.negated then runUnless b.condition body else runIf b.condition body

/-- A tree of score commands, placeholders and blocks. -/
inductive Program where
  | skip
  | command (c : Command) (score : c.isScore = true)
  | placeholder
  | seq (first second : Program)
  | block (b : Branch) (body : Program)
  | choice (b : Branch) (body otherwise : Program)

namespace Program

def emit : Program → EmitM Unit
  | .skip => pure ()
  | .command c _ => BlockComputer.emit c
  | .placeholder => BlockComputer.emit .placeholder
  | .seq p q => do
    p.emit
    q.emit
  | .block b body => do
    let _ ← b.run body.emit
  | .choice b body otherwise => do
    let opened ← b.run body.emit
    opened.orElse otherwise.emit

/-- What the program means: a condition is tested once, and decides over a whole block. -/
def meaning (origin : Point) : Program → World → World
  | .skip, w => w
  | .command c _, w => c.after origin w
  | .placeholder, w => w
  | .seq p q, w => q.meaning origin (p.meaning origin w)
  | .block b body, w => if b.holds w then body.meaning origin w else w
  | .choice b body otherwise, w =>
    if b.holds w then body.meaning origin w else otherwise.meaning origin w

def leaves : Program → List Command
  | .skip => []
  | .command c _ => [c]
  | .placeholder => [.placeholder]
  | .seq p q | .choice _ p q => p.leaves ++ q.leaves
  | .block _ body => body.leaves

def Spares (p : Program) (c : Condition) : Prop :=
  ∀ leaf ∈ p.leaves, ∀ v ∈ c.reads, v ∉ leaf.writes

/-- No command in a branch writes what the condition of a block around it reads. -/
def Undisturbed : Program → Prop
  | .skip | .command .. | .placeholder => True
  | .seq p q => p.Undisturbed ∧ q.Undisturbed
  | .block b body => body.Spares b.condition ∧ body.Undisturbed
  | .choice b body otherwise =>
    (body.Spares b.condition ∧ otherwise.Spares b.condition) ∧
      body.Undisturbed ∧ otherwise.Undisturbed

instance (p : Program) (c : Condition) : Decidable (p.Spares c) :=
  inferInstanceAs (Decidable (∀ leaf ∈ p.leaves, ∀ v ∈ c.reads, v ∉ leaf.writes))

instance decidableUndisturbed : (p : Program) → Decidable p.Undisturbed
  | .skip | .command .. | .placeholder => .isTrue trivial
  | .seq p q =>
    have := decidableUndisturbed p
    have := decidableUndisturbed q
    inferInstanceAs (Decidable (_ ∧ _))
  | .block _ body =>
    have := decidableUndisturbed body
    inferInstanceAs (Decidable (_ ∧ _))
  | .choice _ body otherwise =>
    have := decidableUndisturbed body
    have := decidableUndisturbed otherwise
    inferInstanceAs (Decidable ((_ ∧ _) ∧ _ ∧ _))

def flat : Program → List Command
  | .skip => []
  | .command c _ => [c]
  | .placeholder => [.placeholder]
  | .seq p q => p.flat ++ q.flat
  | .block b body => body.flat.map (Command.guarded [b.guard])
  | .choice b body otherwise =>
    body.flat.map (Command.guarded [b.guard]) ++
      otherwise.flat.map (Command.guarded [b.opposite.guard])

end Program

theorem Emits.branch {x : EmitM Unit} {cs : List Command} {ks : List Int32} (h : Emits x () cs ks)
    (b : Branch) : Emits (b.run x) b (cs.map (Command.guarded [b.guard])) ks := by
  obtain ⟨condition, negated⟩ := b
  cases negated with
  | true => exact h.runUnless condition
  | false => exact h.runIf condition

theorem Program.emits_flat (p : Program) : Emits p.emit () p.flat [] := by
  induction p with
  | skip => exact .pure ()
  | command c score => exact .emit c
  | placeholder => exact .emit .placeholder
  | seq p q ihp ihq => exact ihp.seq ihq
  | block b body ih =>
    have emitted := (ih.branch b).bind (f := fun _ => Pure.pure ()) (.pure ())
    rwa [List.append_nil, List.append_nil] at emitted
  | choice b body otherwise ihBody ihOtherwise =>
    exact (ihBody.branch b).bind (ihOtherwise.orElse b)

namespace Branch

theorem enter_guard (b : Branch) (w : World) (origin : Point) :
    Qualifier.enter w [b.guard] origin = if b.holds w then some (origin, []) else none := by
  obtain ⟨condition, negated⟩ := b
  cases negated <;> cases h : condition.holds w <;> simp [guard, Qualifier.enter, holds, h]

theorem holds_opposite (b : Branch) (w : World) : b.opposite.holds w = !b.holds w := by
  obtain ⟨condition, negated⟩ := b
  cases negated <;> cases h : condition.holds w <;> simp [opposite, holds, h]

end Branch

namespace Command

theorem after_of_isPlaceholder {c : Command} (h : c.isPlaceholder = true) (origin : Point)
    (w : World) : c.after origin w = w := by
  cases c with
  | placeholder => rfl
  | raw text =>
    have empty : text.isEmpty = true := h
    simp [after, run, empty]
  | _ => cases h

theorem after_guarded (b : Branch) (c : Command) (origin : Point) (w : World) :
    (c.guarded [b.guard]).after origin w = if b.holds w then c.after origin w else w := by
  by_cases idle : c.isPlaceholder = true
  · simp [guarded, idle, after_of_isPlaceholder idle]
  · simp only [guarded, idle, List.isEmpty_cons, Bool.or_self, Bool.false_eq_true, if_false]
    simp only [after, run, Branch.enter_guard]
    cases b.holds w <;> rfl

def Settled (condition : Condition) (c : Command) : Prop :=
  ∀ origin w, condition.holds (c.after origin w) = condition.holds w

theorem settled_of_spares {condition : Condition} {c : Command} (score : c.isScore = true)
    (spares : ∀ v ∈ condition.reads, v ∉ c.writes) : c.Settled condition := by
  intro origin w
  cases condition with
  | compare left relation right =>
    have left_same := scores_after score (spares left (by simp [Condition.reads])) origin w
    have right_same := scores_after score (spares right (by simp [Condition.reads])) origin w
    simp only [Condition.holds, left_same, right_same]
  | inRange v range =>
    have same := scores_after score (spares v (by simp [Condition.reads])) origin w
    simp only [Condition.holds, same]
  | present e => simp only [Condition.holds, World.locate, entities_after score]

theorem Settled.guarded {condition : Condition} {c : Command} (h : c.Settled condition)
    (b : Branch) : (c.guarded [b.guard]).Settled condition := by
  intro origin w
  rw [after_guarded]
  by_cases runs : b.holds w
  · rw [if_pos runs, h origin w]
  · rw [if_neg runs]

end Command

theorem holds_runAll {condition : Condition} {cs : List Command}
    (settled : ∀ c ∈ cs, c.Settled condition) (site : Site) (w : World) :
    condition.holds (w.runAll site cs) = condition.holds w := by
  induction cs generalizing site w with
  | nil => rfl
  | cons c cs ih =>
    rw [World.runAll_cons, ih (fun d mem => settled d (List.mem_cons_of_mem _ mem)),
      settled c List.mem_cons_self]

/-- One guard in front of every command is as good as one test of the condition. -/
theorem runAll_guarded {b : Branch} {cs : List Command}
    (settled : ∀ c ∈ cs, c.Settled b.condition) (site : Site) (w : World) :
    w.runAll site (cs.map (Command.guarded [b.guard])) =
      if b.holds w then w.runAll site cs else w := by
  induction cs generalizing site w with
  | nil => simp
  | cons c cs ih =>
    have others := ih fun d mem => settled d (List.mem_cons_of_mem _ mem)
    rw [List.map_cons, World.runAll_cons, others, Command.after_guarded]
    by_cases runs : b.holds w
    · have still : b.holds (c.after site.centre w) = true := by
        rw [Branch.holds, settled c List.mem_cons_self, ← Branch.holds, runs]
      rw [if_pos runs, if_pos still, if_pos runs, World.runAll_cons]
    · rw [if_neg runs, if_neg runs, if_neg runs]

/-- A block and its alternative: the condition is tested again for the second block, after the first one
ran, and is still the same. -/
theorem runAll_choice {b : Branch} {cs ds : List Command} (settled : ∀ c ∈ cs, c.Settled b.condition)
    (settled' : ∀ d ∈ ds, d.Settled b.condition) (site : Site) (w : World) :
    w.runAll site
        (cs.map (Command.guarded [b.guard]) ++ ds.map (Command.guarded [b.opposite.guard])) =
      if b.holds w then w.runAll site cs else w.runAll (site.shift cs.length) ds := by
  have second := runAll_guarded (b := b.opposite) settled' (site.shift cs.length)
  rw [World.runAll_append, runAll_guarded settled, List.length_map, second, Branch.holds_opposite]
  by_cases runs : b.holds w
  · have still : b.holds (w.runAll site cs) = true := by
      rw [Branch.holds, holds_runAll settled, ← Branch.holds, runs]
    rw [if_pos runs, still, if_pos runs]
    rfl
  · rw [if_neg runs, if_neg runs]
    simp [runs]

namespace Program

theorem isScore_or_of_mem_leaves {p : Program} {leaf : Command} (mem : leaf ∈ p.leaves) :
    leaf.isScore = true ∨ leaf = .placeholder := by
  induction p with
  | skip => cases mem
  | command c score => exact .inl (List.mem_singleton.1 mem ▸ score)
  | placeholder => exact .inr (List.mem_singleton.1 mem)
  | seq p q ihp ihq | choice _ p q ihp ihq => exact (List.mem_append.1 mem).elim ihp ihq
  | block b body ih => exact ih mem

/-- A unit is a leaf under guards, and a bare placeholder where the leaf is one. -/
def IsUnitOf (leaf unit : Command) : Prop :=
  unit.unguarded = leaf ∧ (leaf = .placeholder → unit = .placeholder)

theorem IsUnitOf.guarded {leaf unit : Command} (h : IsUnitOf leaf unit) (qs : List Qualifier) :
    IsUnitOf leaf (unit.guarded qs) := by
  refine ⟨(Command.unguarded_guarded qs unit).trans h.1, fun idle => ?_⟩
  rw [h.2 idle]
  rfl

theorem IsUnitOf.guarded_all {leaves flat : List Command} (h : List.Forall₂ IsUnitOf leaves flat)
    (qs : List Qualifier) : List.Forall₂ IsUnitOf leaves (flat.map (Command.guarded qs)) := by
  rw [List.forall₂_map_right_iff]
  exact h.imp fun leaf unit here => here.guarded qs

theorem forall₂_leaves_flat (p : Program) : List.Forall₂ IsUnitOf p.leaves p.flat := by
  induction p with
  | skip => exact .nil
  | command c score =>
    have bare : c.unguarded = c := by cases c <;> first | rfl | cases score
    exact .cons ⟨bare, fun idle => by rw [idle]⟩ .nil
  | placeholder => exact .cons ⟨rfl, fun _ => rfl⟩ .nil
  | seq p q ihp ihq => exact List.rel_append ihp ihq
  | block b body ih => exact IsUnitOf.guarded_all ih _
  | choice b body otherwise ihBody ihOtherwise =>
    exact List.rel_append (IsUnitOf.guarded_all ihBody _) (IsUnitOf.guarded_all ihOtherwise _)

theorem settled_flat {p : Program} {condition : Condition}
    (leaves : ∀ leaf ∈ p.leaves, leaf.Settled condition) :
    ∀ c ∈ p.flat, c.Settled condition := by
  have guarded {cs : List Command} (h : ∀ c ∈ cs, c.Settled condition) (b : Branch) :
      ∀ c ∈ cs.map (Command.guarded [b.guard]), c.Settled condition := by
    intro c mem
    obtain ⟨d, inside, rfl⟩ := List.mem_map.1 mem
    exact (h d inside).guarded b
  induction p with
  | skip | command | placeholder => exact leaves
  | seq p q ihp ihq =>
    rw [Program.leaves, List.forall_mem_append] at leaves
    exact List.forall_mem_append.2 ⟨ihp leaves.1, ihq leaves.2⟩
  | block b body ih => exact guarded (ih leaves) b
  | choice b body otherwise ihBody ihOtherwise =>
    rw [Program.leaves, List.forall_mem_append] at leaves
    exact List.forall_mem_append.2
      ⟨guarded (ihBody leaves.1) b, guarded (ihOtherwise leaves.2) b.opposite⟩

theorem Spares.settled_flat {p : Program} {condition : Condition} (spares : p.Spares condition) :
    ∀ c ∈ p.flat, c.Settled condition := by
  refine Program.settled_flat fun leaf mem => ?_
  rcases isScore_or_of_mem_leaves mem with score | rfl
  · exact Command.settled_of_spares score (spares leaf mem)
  · exact fun _ _ => rfl

/-- The flat list does what the program means. -/
theorem runAll_flat {p : Program} (undisturbed : p.Undisturbed) (site : Site) (origin : Point)
    (w : World) : w.runAll site p.flat = p.meaning origin w := by
  induction p generalizing site w with
  | skip | placeholder => rfl
  | command c score => exact Command.after_eq_of_isScore score _ _ w
  | seq p q ihp ihq =>
    rw [flat, World.runAll_append, ihp undisturbed.1, ihq undisturbed.2, meaning]
  | block b body ih =>
    rw [flat, runAll_guarded undisturbed.1.settled_flat, ih undisturbed.2, meaning]
  | choice b body otherwise ihBody ihOtherwise =>
    obtain ⟨⟨bodySpares, otherSpares⟩, bodyQuiet, otherQuiet⟩ := undisturbed
    rw [flat, runAll_choice bodySpares.settled_flat otherSpares.settled_flat, ihBody bodyQuiet,
      ihOtherwise otherQuiet, meaning]

end Program

/-- Structured control is compiled correctly. In every session with an open scope the tree is emitted
as one flat list, with a unit for each leaf, and the list does what the tree means wherever it runs. -/
theorem structured_control {p : Program} (undisturbed : p.Undisturbed) :
    ∃ flat, (∀ s : Session, s.scopes ≠ [] → perform p.emit s = (.ok (), s.append flat)) ∧
      List.Forall₂ Program.IsUnitOf p.leaves flat ∧
      ∀ (site : Site) (origin : Point) (w : World), w.runAll site flat = p.meaning origin w := by
  refine ⟨p.flat, fun s open_ => ?_, p.forall₂_leaves_flat, fun site origin w =>
    Program.runAll_flat undisturbed site origin w⟩
  exact p.emits_flat s open_

def twoLevels : Program :=
  .seq (.command (.setScore ⟨"a"⟩ 1) rfl) <|
    .choice ⟨.compare ⟨"a"⟩ .eq ⟨"b"⟩, false⟩
      (.seq (.command (.setScore ⟨"c"⟩ 4) rfl) <|
        .choice ⟨.inRange ⟨"c"⟩ (.atLeast 5), true⟩
          (.seq .placeholder (.command (.addScore ⟨"d"⟩ 7) rfl))
          (.command (.resetScore ⟨"d"⟩) rfl))
      (.command (.operateScore ⟨"d"⟩ .swap ⟨"e"⟩) rfl)

theorem structured_control_twoLevels :
    twoLevels.Undisturbed ∧
      ∃ flat, perform twoLevels.emit { scopes := [[]] } = (.ok (), { scopes := [flat] }) ∧
        flat.length = 6 ∧
        (World.runAll ⟨0, 0, 0⟩ (({} : World).setScore ⟨"b"⟩ 1) flat).score ⟨"d"⟩ = 7 := by
  have undisturbed : twoLevels.Undisturbed := by decide
  obtain ⟨flat, emitted, each, runs⟩ := structured_control undisturbed
  refine ⟨undisturbed, flat, emitted { scopes := [[]] } (by decide), ?_, ?_⟩
  · rw [← each.length_eq]
    rfl
  · rw [runs _ ⟨0, 0, 0⟩]
    decide

end BlockComputer
