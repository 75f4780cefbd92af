import BlockComputer.Proofs.Emission.Copies

/-!
What a failed operation on variables leaves behind.

An operation takes several steps, and nothing takes them back when a later one is refused. A refused step
does nothing to the session, so what is left is exactly what the steps in front of it did. They take names into
use or give them back, and emit commands to the innermost scope; constants are only materialized where nothing
can fail any more. So a failed operation leaves the initialization, the constants and the outer scopes alone,
and one that leaves the names alone leaves everything alone.
-/

namespace BlockComputer

/-- A step that can be refused. -/
inductive Step where
  | take (name : String)
  | give (name : String)
  | write (c : Command)
  | refuse (e : Failure)

namespace Step

/-- Why the session refuses the step. -/
def refusal? (s : Session) : Step → Option Failure
  | take name => if s.isRegistered name then some (.error (.duplicateName name)) else none
  | give name => if s.isRegistered name then none else some (.error (.unknownName name))
  | write _ => if s.scopes = [] then some (.error .noActiveScope) else none
  | refuse e => some e

def log : Step → List Event
  | take name => [.named name]
  | give name => [.freed name]
  | write c => [.emitted [c]]
  | refuse _ => []

def isTake : Step → Bool
  | take _ => true
  | _ => false

def isGive : Step → Bool
  | give _ => true
  | _ => false

def creating (name : String) (value : Int32) : List Step :=
  [take name, write (.setScore ⟨name⟩ value)]

def releasing (v : Variable) : List Step :=
  [give v.name, write (.resetScore v)]

end Step

namespace Session

def attempt (s : Session) : List Step → Except Failure Unit × Session
  | [] => (.ok (), s)
  | step :: steps =>
    match step.refusal? s with
    | some e => (.error e, s)
    | none => (s.replay step.log).attempt steps

/-- Only the names and the innermost scope may differ. -/
structure SameOutside (s t : Session) : Prop where
  init : t.init = s.init
  constants : t.constants = s.constants
  nextTag : t.nextTag = s.nextTag
  depth : t.depth = s.depth
  outer : t.scopes.tail = s.scopes.tail

section attempt

variable {s t u : Session} {step : Step} {steps before after : List Step} {e : Failure}

theorem SameOutside.refl (s : Session) : s.SameOutside s :=
  ⟨rfl, rfl, rfl, rfl, rfl⟩

theorem SameOutside.trans (first : s.SameOutside t) (second : t.SameOutside u) : s.SameOutside u :=
  ⟨second.init.trans first.init, second.constants.trans first.constants, second.nextTag.trans first.nextTag,
    second.depth.trans first.depth, second.outer.trans first.outer⟩

theorem sameOutside_step (s : Session) (step : Step) : s.SameOutside (s.replay step.log) := by
  cases step with
  | take name | give name | refuse e => exact ⟨rfl, rfl, rfl, rfl, rfl⟩
  | write c =>
    cases scopes : s.scopes with
    | nil =>
      rw [show s.replay (Step.write c).log = s by simp [Step.log, after, append, scopes]]
      exact .refl s
    | cons top others =>
      constructor <;> simp [Step.log, after, append, scopes, depth]

theorem attempt_append (s : Session) (before after : List Step) : s.attempt (before ++ after) =
    match s.attempt before with
    | (.ok (), t) => t.attempt after
    | (.error e, t) => (.error e, t) := by
  induction before generalizing s with
  | nil => rfl
  | cons step before ih =>
    rw [List.cons_append, attempt, attempt]
    split
    · rfl
    · exact ih _

theorem attempt_cons_eq_ok : s.attempt (step :: steps) = (.ok (), t) ↔
    step.refusal? s = none ∧ (s.replay step.log).attempt steps = (.ok (), t) := by
  rw [attempt]
  split
  · next refused => exact ⟨fun same => (nomatch same), fun both => nomatch refused.symm.trans both.1⟩
  · next passed => exact ⟨fun taken => ⟨passed, taken⟩, And.right⟩

/-- The steps fail at one that is refused behind the others, which were taken. -/
theorem attempt_eq_error_iff : s.attempt steps = (.error e, t) ↔ ∃ before step after,
    steps = before ++ step :: after ∧ s.attempt before = (.ok (), t) ∧ step.refusal? t = some e := by
  constructor
  · intro failed
    induction steps generalizing s with
    | nil => cases failed
    | cons step steps ih =>
      rw [attempt] at failed
      split at failed
      · next refused =>
        cases failed
        exact ⟨[], step, steps, rfl, rfl, refused⟩
      · next passed =>
        obtain ⟨before, step', after, rfl, taken, refused⟩ := ih failed
        exact ⟨step :: before, step', after, rfl, attempt_cons_eq_ok.2 ⟨passed, taken⟩, refused⟩
  · rintro ⟨before, step, after, rfl, taken, refused⟩
    rw [attempt_append, taken]
    simp only
    rw [attempt, refused]

theorem replay_of_attempt (taken : s.attempt steps = (.ok (), t)) : t = s.replay (steps.flatMap Step.log) := by
  induction steps generalizing s with
  | nil =>
    cases taken
    rfl
  | cons step steps ih =>
    rw [List.flatMap_cons, replay_append]
    exact ih (attempt_cons_eq_ok.1 taken).2

theorem sameOutside_attempt (s : Session) (steps : List Step) : s.SameOutside (s.attempt steps).2 := by
  induction steps generalizing s with
  | nil => exact .refl s
  | cons step steps ih =>
    rw [attempt]
    split
    · exact .refl s
    · exact (s.sameOutside_step step).trans (ih _)

theorem length_names_step (passed : step.refusal? s = none) :
    (s.replay step.log).names.length + [step].countP Step.isGive =
      s.names.length + [step].countP Step.isTake := by
  cases step with
  | take name => exact List.length_append
  | give name =>
    have used : name ∈ s.names := by
      by_contra unused
      simp [Step.refusal?, isRegistered, unused] at passed
    have shrunk : (s.replay (Step.give name).log).names.length = s.names.length - 1 :=
      List.length_erase_of_mem used
    have positive := List.length_pos_of_mem used
    rw [shrunk]
    exact Nat.sub_add_cancel positive
  | write c => exact congrArg List.length (names_append s [c])
  | refuse e => cases passed

theorem length_names_attempt (taken : s.attempt steps = (.ok (), t)) :
    t.names.length + steps.countP Step.isGive = s.names.length + steps.countP Step.isTake := by
  induction steps generalizing s with
  | nil =>
    cases taken
    rfl
  | cons step steps ih =>
    obtain ⟨passed, others⟩ := attempt_cons_eq_ok.1 taken
    have first := length_names_step passed
    have rest := ih others
    rw [← List.singleton_append, List.countP_append, List.countP_append]
    omega

end attempt

end Session

/-- From this session on, the step fails as the steps do, and where they are all taken, it returns `a` and has done
what they did. -/
def Traces {α : Type} (x : EmitM α) (a : α) (s : Session) (steps : List Step) : Prop :=
  perform x s = ((s.attempt steps).1.map fun _ => a, (s.attempt steps).2)

namespace Traces

variable {α β : Type} {x : EmitM α} {f : α → EmitM β} {a : α} {b : β} {s : Session} {steps others : List Step}

theorem pure (a : α) (s : Session) : Traces (pure a) a s [] := rfl

theorem bind (first : Traces x a s steps) (second : ∀ t, Traces (f a) b t others) :
    Traces (x >>= f) b s (steps ++ others) := by
  rw [Traces, perform_bind, first, Session.attempt_append]
  rcases s.attempt steps with ⟨_ | _, t⟩
  · rfl
  · exact second t

theorem registerName (name : String) (s : Session) : Traces (registerName name) () s [.take name] := by
  rw [Traces, perform_registerName, Session.attempt, Step.refusal?]
  by_cases used : s.isRegistered name
  · rw [if_pos used, if_pos used]
    rfl
  · rw [if_neg used, if_neg used]
    rfl

theorem freeName (name : String) (s : Session) : Traces (freeName name) () s [.give name] := by
  rw [Traces, perform_freeName, Session.attempt, Step.refusal?]
  by_cases used : s.isRegistered name
  · rw [if_pos used, if_pos used]
    rfl
  · rw [if_neg used, if_neg used]
    rfl

theorem emit (c : Command) (s : Session) : Traces (emit c) () s [.write c] := by
  rw [Traces, Session.attempt, Step.refusal?]
  by_cases closed : s.scopes = []
  · rw [perform_emit_of_closed closed, if_pos closed]
    rfl
  · rw [Emits.emit c s closed, if_neg closed]
    rfl

theorem create (name : String) (value : Int32) (s : Session) :
    Traces (Variable.create name value) ⟨name⟩ s (Step.creating name value) :=
  .bind (.registerName name s) fun t => .bind (.emit _ t) fun u => .pure _ u

theorem release (v : Variable) (s : Session) : Traces v.release () s (Step.releasing v) :=
  .bind (.freeName v.name s) fun t => .emit _ t

theorem cloned (v : Variable) (s : Session) :
    Traces v.cloned s.spare s (Step.creating s.spare.name 0 ++ [.write (.operateScore s.spare .set v)]) := by
  have made : Traces Variable.temporary s.spare s (Step.creating s.spare.name 0) := create s.spare.name 0 s
  exact .bind made fun t => .bind (.emit _ t) fun u => .pure _ u

theorem vector (name : String) (initial : Position) (s : Session) :
    Traces (Vector3.create name initial) ⟨name, ⟨s!"{name}_x"⟩, ⟨s!"{name}_y"⟩, ⟨s!"{name}_z"⟩⟩ s
      (Step.creating s!"{name}_x" initial.x.value ++ (Step.creating s!"{name}_y" initial.y.value ++
        Step.creating s!"{name}_z" initial.z.value)) :=
  .bind (.create _ _ s) fun _ => .bind (.create _ _ _) fun _ => .bind (.create _ _ _) fun _ => .pure _ _

theorem releaseVector (v : Vector3) (s : Session) : Traces v.release () s
    (Step.releasing v.x ++ (Step.releasing v.y ++ Step.releasing v.z)) :=
  .bind (.release _ s) fun _ => .bind (.release _ _) fun _ => .release _ _

theorem refused {form : Computation} {v : Variable} {e : Failure} (refused : form.refusal? v = some e)
    (s : Session) : Traces (form.inPlace v) () s [.refuse e] :=
  Computation.perform_refused refused s

theorem fails_iff {e : Failure} {t : Session} (first : Traces x a s steps)
    (succeeds : ∀ t, s.attempt steps = (.ok (), t) → ∃ b u, perform (f a) t = (.ok b, u)) :
    perform (x >>= f) s = (.error e, t) ↔ s.attempt steps = (.error e, t) := by
  rw [perform_bind, first]
  rcases taken : s.attempt steps with ⟨_ | _, u⟩
  · exact ⟨fun same => by cases same; rfl, fun same => by cases same; rfl⟩
  · obtain ⟨b, u', ran⟩ := succeeds u taken
    refine ⟨fun failed => ?_, fun failed => nomatch failed⟩
    rw [show perform (f a) u = (.error e, t) from failed] at ran
    cases ran

end Traces

/-- An operation on variables that can fail half-way. -/
inductive Call where
  | create (name : String) (value : Int32)
  | temporary
  | release (v : Variable)
  | compute (form : Computation) (v : Variable)
  | createVector (name : String) (initial : Position)
  | releaseVector (v : Vector3)

namespace Call

def run : Call → EmitM Unit
  | create name value => do let _ ← Variable.create name value; return
  | temporary => do let _ ← Variable.temporary; return
  | release v => do v.release; return
  | compute form v => do let _ ← form.onCopy v; return
  | createVector name initial => do let _ ← Vector3.create name initial; return
  | releaseVector v => do v.release; return

def steps (s : Session) : Call → List Step
  | create name value => Step.creating name value
  | temporary => Step.creating s.spare.name 0
  | release v => Step.releasing v
  | compute form v =>
    Step.creating s.spare.name 0 ++ [.write (.operateScore s.spare .set v)] ++
      (form.refusal? s.spare).toList.map .refuse
  | createVector name initial =>
    Step.creating s!"{name}_x" initial.x.value ++ (Step.creating s!"{name}_y" initial.y.value ++
      Step.creating s!"{name}_z" initial.z.value)
  | releaseVector v => Step.releasing v.x ++ (Step.releasing v.y ++ Step.releasing v.z)

variable {call : Call} {s t : Session} {e : Failure}

theorem fails_iff : perform call.run s = (.error e, t) ↔ s.attempt (call.steps s) = (.error e, t) := by
  have silent (t : Session) : ∃ b u, perform (pure () : EmitM Unit) t = (.ok b, u) := ⟨(), t, rfl⟩
  cases call with
  | create name value => exact (Traces.create name value s).fails_iff fun t _ => silent t
  | temporary =>
    have made : Traces Variable.temporary s.spare s (Step.creating s.spare.name 0) := .create s.spare.name 0 s
    exact made.fails_iff fun t _ => silent t
  | release v => exact (Traces.release v s).fails_iff fun t _ => silent t
  | createVector name initial => exact (Traces.vector name initial s).fails_iff fun t _ => silent t
  | releaseVector v => exact (Traces.releaseVector v s).fails_iff fun t _ => silent t
  | compute form v =>
    rw [run, form.onCopy_eq, steps]
    have cloned := Traces.cloned v s
    cases refused : form.refusal? s.spare with
    | some e' =>
      have whole : Traces (do let copy ← v.cloned; form.inPlace copy; return copy) s.spare s
          (Step.creating s.spare.name 0 ++ [.write (.operateScore s.spare .set v)] ++ [.refuse e']) :=
        cloned.bind fun t => .bind (.refused refused t) fun u => .pure s.spare u
      exact whole.fails_iff fun t _ => silent t
    | none =>
      rw [bind_assoc, Option.toList_none, List.map_nil, List.append_nil]
      refine cloned.fails_iff fun t taken => ?_
      rw [Traces, taken, perform_cloned] at cloned
      split at cloned
      · cases cloned
      · next opened =>
        obtain rfl : s.copied v = t := congrArg Prod.snd cloned
        have still : (s.copied v).scopes ≠ [] := s.scopes_copied v ▸ s.scopes_append_ne_nil _ opened
        have emits := ((Computation.emits refused).seq (.pure s.spare)).seq (.pure ())
        exact ⟨(), _, emits _ still⟩

/-- An operation starts with a name. If it takes names into use, it gives none back, and the other way round. -/
theorem exists_steps_eq (call : Call) (s : Session) : ∃ first others, call.steps s = first :: others ∧
    (first.isTake ∧ (call.steps s).countP Step.isGive = 0 ∨
      first.isGive ∧ (call.steps s).countP Step.isTake = 0) := by
  cases call with
  | create | temporary | createVector => exact ⟨_, _, rfl, .inl ⟨rfl, rfl⟩⟩
  | release | releaseVector => exact ⟨_, _, rfl, .inr ⟨rfl, rfl⟩⟩
  | compute form v =>
    refine ⟨_, _, rfl, .inl ⟨rfl, ?_⟩⟩
    rw [steps]
    cases form.refusal? s.spare with
    | none => rfl
    | some e => rfl

theorem eq_nil_of_names {before after : List Step} {step : Step} (order : call.steps s = before ++ step :: after)
    (taken : s.attempt before = (.ok (), t)) (names : t.names = s.names) : before = [] := by
  have balanced := Session.length_names_attempt taken
  obtain ⟨first, others, starts, kinds⟩ := call.exists_steps_eq s
  cases before with
  | nil => rfl
  | cons b before =>
    have whole : call.steps s = (b :: before) ++ step :: after := order
    obtain rfl : first = b := (List.cons.inj (starts.symm.trans order)).1
    -- taking a name and giving one back could cancel, but no operation does both
    rw [names] at balanced
    simp only [order, List.countP_append, List.countP_cons] at kinds balanced
    rcases kinds with ⟨take, none_⟩ | ⟨give, none_⟩
    · rw [if_pos take] at balanced
      omega
    · rw [if_pos give] at balanced
      omega

end Call

/-- An operation that fails with an error leaves what its steps in front of the refused one did, and nothing
else: no step is taken back. The initialization, the constants and the outer scopes are the same as before, and if
the names are, everything is; that is so where the first step is refused. -/
theorem failed_calls_keep_taken_steps (call : Call) (s t : Session) (cause : Error)
    (failed : perform call.run s = (.error (.error cause), t)) :
    s.SameOutside t ∧ ∃ before step after, call.steps s = before ++ step :: after ∧
      s.attempt before = (.ok (), t) ∧ t = s.replay (before.flatMap Step.log) ∧
      step.refusal? t = some (.error cause) ∧ (t.names = s.names → before = []) ∧ (before = [] → t = s) := by
  rw [Call.fails_iff] at failed
  refine ⟨?_, ?_⟩
  · have same := s.sameOutside_attempt (call.steps s)
    rwa [failed] at same
  · obtain ⟨before, step, after, order, taken, refused⟩ := Session.attempt_eq_error_iff.1 failed
    refine ⟨before, step, after, order, taken, Session.replay_of_attempt taken, refused,
      Call.eq_nil_of_names order taken, ?_⟩
    rintro rfl
    exact (congrArg Prod.snd taken).symm

/-- A vector whose second axis has a name in use leaves its first axis, with its value. -/
theorem failed_calls_keep_taken_steps_vector :
    let s : Session := { scopes := [[]], names := ["p_y"] }
    let t : Session := { scopes := [[.setScore ⟨"p_x"⟩ 1]], names := ["p_y", "p_x"] }
    let call : Call := .createVector "p" (.absolute 1 2 3)
    perform call.run s = (.error (.error (.duplicateName "p_y")), t) ∧ s.SameOutside t ∧
      ∃ before step after, call.steps s = before ++ step :: after ∧ s.attempt before = (.ok (), t) ∧
        before ≠ [] := by
  intro s t call
  have failed : perform call.run s = (.error (.error (.duplicateName "p_y")), t) := rfl
  obtain ⟨outside, before, step, after, order, taken, -, -, -, nothing⟩ :=
    failed_calls_keep_taken_steps call s t _ failed
  refine ⟨failed, outside, before, step, after, order, taken, fun none_ => ?_⟩
  exact absurd (congrArg Session.names (nothing none_)) (by decide)

/-- A variable that is created without a scope leaves its name in use, so it cannot be created again inside one. -/
theorem failed_create_keeps_name : ∃ t : Session,
    perform (Variable.create "a" 1) {} = (.error (.error .noActiveScope), t) ∧
      ({} : Session).names = [] ∧ t.names = ["a"] ∧
      perform (Variable.create "a" 1) t.entered = (.error (.error (.duplicateName "a")), t.entered) :=
  ⟨_, rfl, rfl, rfl, rfl⟩

end BlockComputer
