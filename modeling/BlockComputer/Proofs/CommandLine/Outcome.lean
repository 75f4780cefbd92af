import BlockComputer.CommandLine.Host

/-!
What the steps of a program end with.

The steps of a program thread what is printed, and stop where one of them gives up. So what composed steps
end with is read off their parts, on every host. To tell what is done in which order, a program runs on a
host that logs every use; with `Ends` a program's result and its log are read off its parts as well.
-/

namespace BlockComputer.CommandLine

variable {m : Type → Type} [Monad m] {α : Type}

def outcome (step : RunT m α) (output : String) : m (Except String α × String) :=
  step.run.run output

theorem outcome_bind {β : Type} [LawfulMonad m] (step : RunT m α) (next : α → RunT m β) (output : String) :
    outcome (step >>= next) output = (do
      match ← outcome step output with
      | (.ok a, printed) => outcome (next a) printed
      | (.error errors, printed) => pure (.error errors, printed)) := by
  simp only [outcome, ExceptT.run_bind, StateT.run_bind]
  refine bind_congr fun (result, printed) => ?_
  cases result <;> rfl

theorem outcome_printLine [LawfulMonad m] (text output : String) :
    outcome (printLine text : RunT m Unit) output = pure (.ok (), output ++ text ++ "\n") := by
  let appended : StateT String m Unit := StateT.modifyGet fun printed => ((), printed ++ text ++ "\n")
  change (ExceptT.lift appended).run.run output = _
  rw [ExceptT.run_lift, StateT.run_map]
  exact map_pure _ _

theorem outcome_giveUp (text output : String) :
    outcome (giveUp text : RunT m α) output = pure (.error (text ++ "\n"), output) := rfl

theorem report_eq (program : RunT m Unit) : report program = (do
    match ← outcome program "" with
    | (.ok _, output) => pure ⟨0, output, ""⟩
    | (.error errors, output) => pure ⟨1, output, errors⟩) := by
  refine bind_congr fun (result, printed) => ?_
  cases result <;> rfl

theorem outcome_ask [LawfulMonad m] (step : m α) (output : String) :
    outcome (ask step) output = (fun answer => (.ok answer, output)) <$> step := by
  simp [outcome, ask, ExceptT.run_lift]

/-- A use of the files, or of another program, and how it came out. -/
inductive Event where
  | read (path : String) (answer : Except FileError String)
  | made (path : String) (answer : Except FileError Unit)
  | wrote (path text : String) (answer : Except FileError Unit)
  | started (program : String) (arguments : List String) (answer : Except FileError Nat)

def Event.IsRead (event : Event) : Prop :=
  ∃ path answer, event = .read path answer

section logged

variable {σ : Type}

def logging (step : StateM σ α) (event : α → Event) : StateM (σ × List Event) α := fun (s, log) =>
  let (answer, t) := step.run s
  (answer, t, log ++ [event answer])

def Host.logged (files : Host (StateM σ)) : Host (StateM (σ × List Event)) where
  readText path := logging (files.readText path) (.read path)
  createParents path := logging (files.createParents path) (.made path)
  writeText path text := logging (files.writeText path text) (.wrote path text)
  runProgram program arguments := logging (files.runProgram program arguments) (.started program arguments)
  readDocument := files.readDocument

variable {β : Type} {s t u : σ} {events later : List Event}

/-- From one state the steps end in another one, with a result, and this is logged on the way. Without a
result they have given up. -/
def Ends (steps : RunT (StateM (σ × List Event)) α) (s : σ) (result : Option α) (events : List Event)
    (t : σ) : Prop :=
  ∀ log output, ∃ reached printed,
    (outcome steps output).run (s, log) = ((reached, printed), (t, log ++ events)) ∧
      reached.toOption = result

def exitCode (result : Option Unit) : UInt32 :=
  if result.isSome then 0 else 1

namespace Ends

variable {steps : RunT (StateM (σ × List Event)) α} {next : α → RunT (StateM (σ × List Event)) β} {a : α}

theorem of_run (reached : Except String α)
    (runs : ∀ log output, ∃ printed, (outcome steps output).run (s, log) = ((reached, printed), (s, log))) :
    Ends steps s reached.toOption [] s := by
  intro log output
  obtain ⟨printed, runs⟩ := runs log output
  exact ⟨reached, printed, by rw [runs, List.append_nil], rfl⟩

theorem pure : Ends (Pure.pure a) s (some a) [] s :=
  of_run (.ok a) fun _ output => ⟨output, rfl⟩

theorem giveUp (text : String) : Ends (giveUp text : RunT _ α) s none [] s :=
  of_run (.error _) fun _ output => ⟨output, rfl⟩

theorem printLine (text : String) : Ends (printLine text) s (some ()) [] s :=
  of_run (.ok ()) fun _ output => ⟨output ++ text ++ "\n", rfl⟩

theorem ask {step : StateM σ α} (ran : step.run s = (a, t)) (event : α → Event) :
    Ends (ask (logging step event)) s (some a) [event a] t := by
  obtain ⟨rfl, rfl⟩ := Prod.ext_iff.1 ran
  exact fun log output => ⟨.ok _, output, rfl, rfl⟩

theorem bind {result : Option β} (first : Ends steps s (some a) events t)
    (second : Ends (next a) t result later u) : Ends (steps >>= next) s result (events ++ later) u := by
  intro log output
  obtain ⟨reached, printed, runs, same⟩ := first log output
  cases reached with
  | error => cases same
  | ok a' =>
    cases same
    obtain ⟨reached, printed', runs', same'⟩ := second (log ++ events) printed
    refine ⟨reached, printed', ?_, same'⟩
    rw [outcome_bind, StateT.run_bind, runs, ← List.append_assoc]
    exact runs'

theorem bind_quiet {result : Option β} (first : Ends steps s (some a) events t)
    (second : Ends (next a) t result [] u) : Ends (steps >>= next) s result events u := by
  rw [← List.append_nil events]
  exact first.bind second

theorem stop (first : Ends steps s none events t) : Ends (steps >>= next) s none events t := by
  intro log output
  obtain ⟨reached, printed, runs, same⟩ := first log output
  cases reached with
  | ok => cases same
  | error errors =>
    refine ⟨.error errors, printed, ?_, rfl⟩
    rw [outcome_bind, StateT.run_bind, runs]
    rfl

theorem printLines (texts : List String) : Ends (printLines texts) s (some ()) [] s := by
  induction texts with
  | nil => exact pure
  | cons text texts ih => exact (printLine text).bind ih

/-- The exit code tells whether the steps gave up. -/
theorem report {steps : RunT (StateM (σ × List Event)) Unit} {result : Option Unit}
    (ends : Ends steps s result events t) :
    ∃ r : Report, (report steps).run (s, []) = (r, (t, events)) ∧ r.code = exitCode result := by
  obtain ⟨reached, printed, runs, rfl⟩ := ends [] ""
  rw [report_eq, StateT.run_bind, runs]
  cases reached with
  | ok => exact ⟨_, rfl, rfl⟩
  | error => exact ⟨_, rfl, rfl⟩

end Ends

/-- The steps do with a log what they do without one. -/
def Mirrors (steps : RunT (StateM (σ × List Event)) α) (plain : RunT (StateM σ) α) : Prop :=
  ∀ s log output, ∃ reached t events, (outcome plain output).run s = (reached, t) ∧
    (outcome steps output).run (s, log) = (reached, (t, log ++ events))

namespace Mirrors

theorem of_run {steps : RunT (StateM (σ × List Event)) α} {plain : RunT (StateM σ) α}
    (result : Except String α) (printed : String → String)
    (runs : ∀ s log output, (outcome plain output).run s = ((result, printed output), s) ∧
      (outcome steps output).run (s, log) = ((result, printed output), (s, log))) : Mirrors steps plain := by
  intro s log output
  obtain ⟨first, second⟩ := runs s log output
  exact ⟨_, s, [], first, by rw [second, List.append_nil]⟩

theorem pure (a : α) : Mirrors (Pure.pure a : RunT (StateM (σ × List Event)) α) (Pure.pure a) :=
  of_run (.ok a) id fun _ _ _ => ⟨rfl, rfl⟩

theorem giveUp (text : String) : Mirrors (giveUp text : RunT (StateM (σ × List Event)) α) (giveUp text) :=
  of_run (.error _) id fun _ _ _ => ⟨rfl, rfl⟩

theorem printLine (text : String) :
    Mirrors (printLine text : RunT (StateM (σ × List Event)) Unit) (printLine text) :=
  of_run (.ok ()) (· ++ text ++ "\n") fun _ _ _ => ⟨rfl, rfl⟩

theorem ask (step : StateM σ α) (event : α → Event) : Mirrors (ask (logging step event)) (ask step) :=
  fun s _ output => ⟨(.ok (step.run s).1, output), (step.run s).2, [event (step.run s).1], rfl, rfl⟩

variable {steps : RunT (StateM (σ × List Event)) α} {plain : RunT (StateM σ) α}

theorem bind {next : α → RunT (StateM (σ × List Event)) β} {plainNext : α → RunT (StateM σ) β}
    (first : Mirrors steps plain) (second : ∀ a, Mirrors (next a) (plainNext a)) :
    Mirrors (steps >>= next) (plain >>= plainNext) := by
  intro s log output
  obtain ⟨⟨reached, printed⟩, t, events, runs, logged⟩ := first s log output
  rw [outcome_bind, outcome_bind, StateT.run_bind, StateT.run_bind, runs, logged]
  cases reached with
  | error errors => exact ⟨(.error errors, printed), t, events, rfl, rfl⟩
  | ok a =>
    obtain ⟨reached, u, later, runs, logged⟩ := second a t (log ++ events) printed
    exact ⟨reached, u, events ++ later, runs, by rw [← List.append_assoc]; exact logged⟩

theorem printLines (texts : List String) :
    Mirrors (printLines texts : RunT (StateM (σ × List Event)) Unit) (printLines texts) := by
  induction texts with
  | nil => exact pure ()
  | cons text texts ih => exact (printLine text).bind fun _ => ih

theorem report {steps : RunT (StateM (σ × List Event)) Unit} {plain : RunT (StateM σ) Unit}
    (mirrors : Mirrors steps plain) {log log' : List Event} {r : Report}
    (runs : (report steps).run (s, log) = (r, (t, log'))) : (report plain).run s = (r, t) := by
  obtain ⟨⟨reached, printed⟩, u, events, same, logged⟩ := mirrors s log ""
  rw [report_eq, StateT.run_bind, logged] at runs
  rw [report_eq, StateT.run_bind, same]
  cases reached <;> cases runs <;> rfl

end Mirrors

end logged

end BlockComputer.CommandLine
