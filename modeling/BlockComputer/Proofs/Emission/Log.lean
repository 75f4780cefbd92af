import BlockComputer.Proofs.Emission.Client

/-!
What happens to a session, one thing after the other.

Whatever a body does, however it nests scopes and failures, it does it by a few operations. The log of a
run lists what these did, and the session behind the run is the one in front of it with the log replayed.
So facts about all bodies are facts about lists of events.
-/

namespace BlockComputer

/-- One thing that happens to a session. -/
inductive Event where
  | opened
  | closed (count : Nat)
  | emitted (commands : List Command)
  | initialized (commands : List Command)
  | memoized (number : Int32)
  | named (name : String)
  | freed (name : String)
  | tagged
  | created (v : Variable)
deriving DecidableEq, Repr

namespace Session

def entered (s : Session) : Session :=
  { s with scopes := [] :: s.scopes }

def after (s : Session) : Event → Session
  | .opened => s.entered
  | .closed count => { s with scopes := s.scopes.drop count }
  | .emitted commands => s.append commands
  | .initialized commands => s.extendInit commands
  | .memoized number => { s with constants := s.constants ++ [number] }
  | .named name => s.register [name]
  | .freed name => { s with names := s.names.erase name }
  | .tagged => s.tagged
  | .created _ => s

def replay (s : Session) (log : List Event) : Session :=
  log.foldl after s

variable (s : Session)

@[simp] theorem replay_nil : s.replay [] = s := rfl

@[simp] theorem replay_cons (event : Event) (log : List Event) :
    s.replay (event :: log) = (s.after event).replay log := rfl

theorem replay_append (log log' : List Event) : s.replay (log ++ log') = (s.replay log).replay log' :=
  List.foldl_append

def offer {β : Type} (s : Session) (value : β) (commands : List Command) : Except Failure β × Session :=
  if s.scopes = [] ∧ commands ≠ [] then (.error (.error .noActiveScope), s)
  else (.ok value, s.append commands)

def registering (name : String) : List Event :=
  if s.isRegistered name then [] else [.named name]

def freeing (name : String) : List Event :=
  if s.isRegistered name then [.freed name] else []

def leaving : List Event :=
  if s.scopes = [] then [] else [.closed 1]

def emitting (commands : List Command) : List Event :=
  if s.scopes = [] then [] else [.emitted commands]

def memoizing (number : Int32) : List Event :=
  if number ∈ s.constants then [] else [.memoized number, .initialized [setNumber number]]

def creating (name : String) (value : Int32) : List Event :=
  if s.isRegistered name then []
  else if s.scopes = [] then [.named name]
  else [.named name, .emitted [.setScore ⟨name⟩ value], .created ⟨name⟩]

end Session

/-- From this session on, the steps do what the log says. A variable counts as handed out where its creation
is logged as one operation. -/
inductive Logs : {α : Type} → EmitM α → Session → List Event → Prop
  | pure {α : Type} (a : α) (s : Session) : Logs (pure a) s []
  | fail {α : Type} (e : Failure) (s : Session) : Logs (throw e : EmitM α) s []
  | look (s : Session) : Logs get s []
  | bind {α β : Type} {x : EmitM α} {f : α → EmitM β} {s t : Session} {a : α} {log log' : List Event}
      (first : Logs x s log) (ran : perform x s = (.ok a, t)) (second : Logs (f a) t log') :
      Logs (x >>= f) s (log ++ log')
  | stop {α β : Type} {x : EmitM α} {f : α → EmitM β} {s t : Session} {e : Failure} {log : List Event}
      (first : Logs x s log) (ran : perform x s = (.error e, t)) : Logs (x >>= f) s log
  | attempt {α : Type} {x : EmitM α} {s : Session} {log : List Event} (step : Logs x s log) :
      Logs (attempt x) s log
  | registerName (name : String) (s : Session) : Logs (registerName name) s (s.registering name)
  | freeName (name : String) (s : Session) : Logs (freeName name) s (s.freeing name)
  | newTag (s : Session) : Logs newTag s [.tagged]
  | enter (s : Session) : Logs enter s [.opened]
  | leave (s : Session) : Logs leave s s.leaving
  | unwindTo (depth : Nat) (s : Session) : Logs (unwindTo depth) s [.closed (s.depth - depth)]
  | emitAll (commands : List Command) (s : Session) : Logs (emitAll commands) s (s.emitting commands)
  | extendInit (commands : List Command) (s : Session) :
      Logs (modify fun s => s.extendInit commands) s [.initialized commands]
  | constant (number : Int32) (s : Session) : Logs (constant number) s (s.memoizing number)
  | create (name : String) (value : Int32) (s : Session) :
      Logs (Variable.create name value) s (s.creating name value)

section perform

variable (s : Session)

theorem append_eq_replay (commands : List Command) : s.append commands = s.replay (s.emitting commands) := by
  by_cases closed : s.scopes = []
  · simp [Session.emitting, Session.append, closed]
  · simp [Session.emitting, closed, Session.after]

theorem memo_eq_replay (number : Int32) : s.memo number = s.replay (s.memoizing number) := by
  by_cases known : number ∈ s.constants
  · simp [Session.memoizing, Session.memo, known]
  · simp [Session.memoizing, Session.memo, known, Session.after, Session.extendInit, setNumber]

theorem perform_emitAll_return {α : Type} (commands : List Command) (value : α) :
    perform (do emitAll commands; return value) s = s.offer value commands := by
  cases commands with
  | nil => simp [emitAll, perform_map, Except.map, Session.offer, Session.append_nil]
  | cons c commands =>
    cases scopes : s.scopes with
    | nil => simp [emitAll, perform_bind, perform_map, Except.map, Session.offer, scopes]
    | cons top others =>
      simp [emitAll, perform_bind, perform_map, Except.map, Session.offer, scopes, Session.append]

theorem perform_create (name : String) (value : Int32) : perform (Variable.create name value) s =
    if s.isRegistered name then (.error (.error (.duplicateName name)), s)
    else if s.scopes = [] then (.error (.error .noActiveScope), s.register [name])
    else (.ok ⟨name⟩, (s.register [name]).append [.setScore ⟨name⟩ value]) := by
  rw [Variable.create, perform_bind, perform_registerName]
  by_cases used : s.isRegistered name
  · rw [if_pos used, if_pos used]
  · rw [if_neg used, if_neg used]
    refine (perform_emitAll_return _ [_] _).trans ?_
    simp [Session.offer, Session.register]

end perform

theorem Logs.replay {α : Type} {x : EmitM α} {s : Session} {log : List Event} (h : Logs x s log) :
    (perform x s).2 = s.replay log := by
  induction h with
  | pure | fail | look | newTag | enter | extendInit => rfl
  | bind _ ran _ ih ih' =>
    rw [ran] at ih
    obtain rfl := ih
    rw [perform_bind, ran, Session.replay_append]
    exact ih'
  | stop _ ran ih =>
    rw [ran] at ih
    rw [perform_bind, ran]
    exact ih
  | attempt _ ih => rw [perform_attempt_snd, ih]
  | registerName name s =>
    rw [perform_registerName, Session.registering]
    split <;> rfl
  | freeName name s =>
    rw [perform_freeName, Session.freeing]
    split <;> rfl
  | leave s =>
    rcases perform_leave s with ⟨none_, left⟩ | ⟨commands, others, scopes, left⟩
    · simp [left, Session.leaving, none_]
    · simp [left, Session.leaving, scopes, Session.after]
  | unwindTo depth s => rfl
  | emitAll commands s => rw [perform_emitAll_snd, append_eq_replay]
  | constant number s => rw [perform_constant, memo_eq_replay]
  | create name value s =>
    rw [perform_create, Session.creating]
    split
    · rfl
    · split <;> rfl

namespace Session

def ending (s : Session) (depth : Nat) : List Event :=
  let count := s.depth - (depth + 1)
  .closed count :: ({ s with scopes := s.scopes.drop count } : Session).leaving

/-- What happens behind the body of a scope. A crash ends everything at once. -/
def closing {α : Type} (s : Session) (ended : Except Failure α × Session) : List Event :=
  match ended with
  | (.error .crash, _) => []
  | (_, t) => t.ending s.depth

end Session

namespace Logs

variable {α β : Type} {x : EmitM α} {s : Session} {log : List Event}

theorem silently {f : α → EmitM β} (first : Logs x s log) (second : ∀ a t, Logs (f a) t []) :
    Logs (x >>= f) s log := by
  rcases ran : perform x s with ⟨_ | a, t⟩
  · exact .stop first ran
  · have whole := Logs.bind first ran (second a t)
    rwa [List.append_nil] at whole

theorem map (f : α → β) (h : Logs x s log) : Logs (f <$> x) s log := by
  rw [map_eq_pure_bind]
  exact h.silently fun a t => .pure (f a) t

theorem endScope (depth : Nat) (outcome : Except Error α) (t : Session) :
    Logs (endScope depth outcome) t (t.ending depth) := by
  refine .bind (.unwindTo (depth + 1) t) rfl ((Logs.leave _).silently fun commands t => ?_)
  cases outcome with
  | ok value => exact .pure _ t
  | error cause => exact .fail _ t

theorem inScope (body : Logs x s.entered log) :
    Logs (inScope x) s (.opened :: (log ++ s.closing (perform x s.entered))) := by
  have attempted := perform_attempt s.entered x
  have ends {outcome : Except Error α} {t : Session}
      (ran : perform (BlockComputer.attempt x) s.entered = (.ok outcome, t)) :
      Logs (BlockComputer.attempt x >>= BlockComputer.endScope s.depth) s.entered (log ++ t.ending s.depth) :=
    .bind (.attempt body) ran (.endScope s.depth outcome t)
  rw [inScope_eq]
  refine .bind (.look s) rfl (.bind (.enter s) rfl ?_)
  rcases ran : perform x s.entered with ⟨(cause | _) | a, t⟩
  · rw [ran] at attempted
    exact ends attempted
  · rw [ran] at attempted
    have stops := (Logs.attempt body).stop (f := BlockComputer.endScope s.depth) attempted
    rwa [← List.append_nil log] at stops
  · rw [ran] at attempted
    exact ends attempted

end Logs

end BlockComputer
