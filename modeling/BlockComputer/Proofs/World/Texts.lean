import BlockComputer.Proofs.World.Reading

/-!
Chains whose units are known by the texts of their commands.

No command makes another one: what stands in a unit has been copied, or the unit is idle. So where the units
of a world say in plain words what they do, they do so for good, and a chain can be run by its texts.
-/

namespace BlockComputer

namespace World

def HasCommand (w : World) (d : Command) : Prop :=
  ∃ p kind, w.blocks p = some (.unit kind d)

variable {w : World} {d : Command}

theorem HasCommand.of_setCount {p : Site} {slot : Nat} {count : Int32}
    (has : (w.setCount p slot count).HasCommand d) : w.HasCommand d := by
  unfold setCount at has
  split at has
  · obtain ⟨q, kind, here⟩ := has
    by_cases same : q = p
    · rw [same, blocks_setBlock_self] at here
      cases here
    · rw [blocks_setBlock_of_ne _ same] at here
      exact ⟨q, kind, here⟩
  · exact has

theorem HasCommand.of_fill {a b : Site} {f : Filling} (has : (w.fill a b f.block).HasCommand d) :
    d = .placeholder ∨ w.HasCommand d := by
  obtain ⟨p, kind, here⟩ := has
  simp only [fill] at here
  split at here
  · cases f with
    | barrel => cases here
    | idleUnit =>
      cases here
      exact .inl rfl
  · exact .inr ⟨p, kind, here⟩

theorem HasCommand.of_clone {a b target : Site} {masked : Bool}
    (has : (w.clone a b target masked).HasCommand d) : w.HasCommand d := by
  obtain ⟨p, kind, here⟩ := has
  simp only [clone] at here
  split at here
  · split at here
    · cases here
      exact ⟨_, kind, ‹_›⟩
    · split at here
      · exact ⟨p, kind, here⟩
      · cases here
  · exact ⟨p, kind, here⟩

theorem HasCommand.of_settle {outcome : Option Int32} {p : Pending}
    (has : (p.settle outcome w).HasCommand d) : w.HasCommand d := by
  unfold Pending.settle at has
  split at has
  · exact has
  · next destination _ =>
    cases destination with
    | score | coordinate => exact has
    | count => exact has.of_setCount

theorem HasCommand.of_settleAll {outcome : Option Int32} {ps : List Pending}
    (has : (ps.foldl (Pending.settle outcome) w).HasCommand d) : w.HasCommand d := by
  induction ps generalizing w with
  | nil => exact has
  | cons p ps ih => exact (ih has).of_settle

/-- A command that stands somewhere behind the run of another one is that of an idle unit, or has stood
somewhere before. -/
theorem HasCommand.of_after {c : Command} {origin : Point} (has : (c.after origin w).HasCommand d) :
    d = .placeholder ∨ w.HasCommand d := by
  unfold Command.after at has
  induction c generalizing origin w with
  | fill => exact has.of_fill
  | clone => exact .inr has.of_clone
  | execute qs c ih =>
    rw [Command.run_execute] at has
    split at has
    · exact .inr has
    · exact ih has.of_settleAll
  | setCount =>
    unfold Command.run at has
    dsimp only at has
    split at has
    · exact .inr has.of_setCount
    · exact .inr has
  | raw | kill | teleport =>
    unfold Command.run at has
    split at has <;> exact .inr has
  | operateScore =>
    simp only [Command.run] at has
    split at has <;> exact .inr has
  | _ => exact .inr has

theorem HasCommand.of_runFrom {start p : Site} {limit : Nat} {u : World}
    (ran : runFrom start limit p w = some u) (has : u.HasCommand d) :
    d = .placeholder ∨ w.HasCommand d := by
  induction limit generalizing p w with
  | zero => cases ran
  | succ limit ih =>
    rw [runFrom] at ran
    split at ran
    · cases ran
      exact .inr has
    · exact (ih ran).elim .inl HasCommand.of_after

def IsInWords (w : World) : Prop :=
  ∀ c, w.HasCommand c → c.inWords

theorem IsInWords.after (plain : w.IsInWords) (c : Command) (origin : Point) : (c.after origin w).IsInWords :=
  fun _ has => has.of_after.elim (fun idle => idle ▸ rfl) (plain _)

theorem IsInWords.of_runFrom {start p : Site} {limit : Nat} {u : World} (plain : w.IsInWords)
    (ran : runFrom start limit p w = some u) : u.IsInWords :=
  fun _ has => (has.of_runFrom ran).elim (fun idle => idle ▸ rfl) (plain _)

theorem IsInWords.of_commandAt {start p : Site} {c : Command} (plain : w.IsInWords)
    (here : w.commandAt? start p = some c) : c.inWords := by
  unfold commandAt? at here
  split at here
  · next kind _ stands =>
    split at here
    · cases here
      exact plain c ⟨p, kind, stands⟩
    · cases here
  · cases here

/-- Runs a chain like `runFrom`, where of every command the text alone is known. -/
def runTextsFrom (start : Site) : (limit : Nat) → Site → World → Option World
  | 0, _, _ => none
  | limit + 1, p, w =>
    match w.commandAt? start p with
    | none => some w
    | some c => (w.runText p.centre c.render).bind fun r => runTextsFrom start limit (p.shift 1) r.1

def runTexts (limit : Nat) (start : Site) (w : World) : Option World :=
  runTextsFrom start limit start w

theorem IsInWords.runTextsFrom_eq (plain : w.IsInWords) (start p : Site) (limit : Nat) :
    runTextsFrom start limit p w = runFrom start limit p w := by
  induction limit generalizing p w with
  | zero => rfl
  | succ limit ih =>
    rw [runTextsFrom, runFrom]
    cases here : w.commandAt? start p with
    | none => rfl
    | some c =>
      simp only [runText_render (plain.of_commandAt here), Option.bind_some]
      exact ih (plain.after c p.centre) (p.shift 1)

/-- A chain that is run by its texts does what its commands do. -/
theorem IsInWords.runTexts_eq (plain : w.IsInWords) (limit : Nat) (start : Site) :
    runTexts limit start w = runChain limit start w :=
  plain.runTextsFrom_eq start start limit

end World

end BlockComputer
