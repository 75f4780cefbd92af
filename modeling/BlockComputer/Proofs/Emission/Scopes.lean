import BlockComputer.Proofs.Emission.Log

/-!
Scopes are closed as they were opened.

A body may open scopes and leave them open, fail at any step and run bodies of its own; as long as it does
not close the scope that was opened for it, everything below that scope stays as it was. What the body
emitted while its own scope was the innermost one is what is handed over.
-/

namespace BlockComputer

namespace Event

def heightAfter (height : Nat) : Event → Nat
  | .opened => height + 1
  | .closed count => height - count
  | _ => height

def stays (height : Nat) : Event → Bool
  | .closed count => count ≤ height
  | _ => true

def own (height : Nat) : Event → List Command
  | .emitted commands => if height = 0 then commands else []
  | _ => []

def init : Event → List Command
  | .initialized commands => commands
  | _ => []

end Event

/-- The scope below `height` others is never closed. -/
def staysAbove : Nat → List Event → Bool
  | _, [] => true
  | height, event :: log => event.stays height && staysAbove (event.heightAfter height) log

/-- The commands that go to the scope below `height` others. -/
def ownCommands : Nat → List Event → List Command
  | _, [] => []
  | height, event :: log => event.own height ++ ownCommands (event.heightAfter height) log

def initCommands (log : List Event) : List Command :=
  log.flatMap Event.init

namespace Session

variable {s : Session} {above : List (List Command)} {own : List Command} {below : List (List Command)}

/-- What an event does to a scope that it does not close, and to those below. -/
theorem scopes_after {event : Event} (scopes : s.scopes = above ++ own :: below)
    (stays : event.stays above.length) :
    ∃ above', above'.length = event.heightAfter above.length ∧
      (s.after event).scopes = above' ++ (own ++ event.own above.length) :: below := by
  cases event with
  | opened => exact ⟨[] :: above, rfl, by simp [after, entered, scopes, Event.own]⟩
  | closed count =>
    have less : count ≤ above.length := of_decide_eq_true stays
    refine ⟨above.drop count, List.length_drop, ?_⟩
    simp [after, scopes, Event.own, List.drop_append_of_le_length less]
  | emitted commands =>
    cases above with
    | nil => exact ⟨[], rfl, by simp_all [after, append, Event.own]⟩
    | cons top above => exact ⟨(top ++ commands) :: above, rfl, by simp_all [after, append, Event.own]⟩
  | initialized | memoized | named | freed | tagged | created =>
    refine ⟨above, rfl, ?_⟩
    change s.scopes = above ++ (own ++ []) :: below
    rwa [List.append_nil]

theorem scopes_replay {log : List Event} (scopes : s.scopes = above ++ own :: below)
    (stays : staysAbove above.length log) :
    ∃ above', (s.replay log).scopes = above' ++ (own ++ ownCommands above.length log) :: below := by
  induction log generalizing s above own with
  | nil => exact ⟨above, by rw [ownCommands, List.append_nil]; exact scopes⟩
  | cons event log ih =>
    rw [staysAbove, Bool.and_eq_true] at stays
    obtain ⟨above', height, scopes'⟩ := scopes_after scopes stays.1
    have tail := ih scopes' (height ▸ stays.2)
    rwa [height, List.append_assoc] at tail

theorem init_after (s : Session) (event : Event) : (s.after event).init = s.init ++ event.init := by
  cases event with
  | initialized commands => rfl
  | emitted commands =>
    change (s.append commands).init = s.init ++ []
    rw [List.append_nil, append]
    split <;> rfl
  | opened | closed | memoized | named | freed | tagged | created => exact (List.append_nil _).symm

theorem init_replay (s : Session) (log : List Event) : (s.replay log).init = s.init ++ initCommands log := by
  induction log generalizing s with
  | nil => exact (List.append_nil _).symm
  | cons event log ih =>
    rw [replay_cons, ih, init_after, List.append_assoc, initCommands, initCommands, List.flatMap_cons]

/-- A body that does, in a scope of its own, what the log says: it does not close the scope, and it does
not crash. -/
structure Hosts {α : Type} (s : Session) (body : EmitM α) (log : List Event) : Prop where
  logs : Logs body s.entered log
  stays : staysAbove 0 log
  noCrash : (perform body s.entered).1 ≠ .error .crash

/-- The session behind a scope: the scopes are those in front of it, everything else is as the body left
it. -/
def behind {α : Type} (s : Session) (body : EmitM α) : Session :=
  { (perform body s.entered).2 with scopes := s.scopes }

/-- How an operation ends that runs a body in a scope of its own and then goes on: with the error of the
body, if it fails. -/
def conclude {α β : Type} (s : Session) (body : EmitM α) (finish : α → Except Failure β × Session) :
    Except Failure β × Session :=
  match (perform body s.entered).1 with
  | .ok a => finish a
  | .error e => (.error e, s.behind body)

end Session

section perform

variable {α β : Type} {s : Session} {body : EmitM α} {log : List Event}

theorem Session.Hosts.perform_inScope (h : s.Hosts body log) : perform (inScope body) s =
    s.conclude body fun a => (.ok (a, ownCommands 0 log), s.behind body) := by
  have entered : s.entered.scopes = [] ++ [] :: s.scopes := rfl
  obtain ⟨above, scopes⟩ := Session.scopes_replay entered h.stays
  rw [← h.logs.replay, List.nil_append] at scopes
  rw [perform_inScope_eq, Session.conclude, Session.behind, Session.entered]
  rcases ran : perform body { s with scopes := [] :: s.scopes } with ⟨(cause | _) | a, t⟩
  · rw [show perform body s.entered = _ from ran] at scopes
    exact perform_endScope scopes (.error cause)
  · exact absurd (congrArg Prod.fst ran) h.noCrash
  · rw [show perform body s.entered = _ from ran] at scopes
    exact perform_endScope scopes (.ok a)

theorem Session.Hosts.perform_inScope_bind (h : s.Hosts body log) (f : α × List Command → EmitM β) :
    perform (inScope body >>= f) s =
      s.conclude body fun a => perform (f (a, ownCommands 0 log)) (s.behind body) := by
  rw [perform_bind, h.perform_inScope]
  unfold Session.conclude
  cases (perform body s.entered).1 <;> rfl

theorem Session.Hosts.perform_capture_bind {body : EmitM Unit} (h : s.Hosts body log)
    (f : List Command → EmitM β) :
    perform (capture body >>= f) s =
      s.conclude body fun _ => perform (f (ownCommands 0 log)) (s.behind body) := by
  rw [capture, bind_map_left]
  exact h.perform_inScope_bind fun result => f result.2

theorem Session.Hosts.perform_block {body : EmitM Unit} (h : s.Hosts body log) (qs : List Qualifier)
    (value : β) : perform (do emitBlockUnder qs body; return value) s = s.conclude body fun _ =>
      (s.behind body).offer value ((ownCommands 0 log).map (Command.guarded qs)) := by
  rw [emitBlockUnder, bind_assoc, h.perform_capture_bind]
  unfold emitAllUnder
  simp only [perform_emitAll_return]

theorem Session.Hosts.perform_emitBlockUnder {body : EmitM Unit} (h : s.Hosts body log) (qs : List Qualifier) :
    perform (emitBlockUnder qs body) s = s.conclude body fun _ =>
      (s.behind body).offer () ((ownCommands 0 log).map (Command.guarded qs)) := by
  rw [← h.perform_block qs (), bind_pure_unit]

end perform

/-- Scopes are balanced around every body that does not close the scope opened for it: the scopes that were
open are as they were, up to the guarded commands that a block appends to the innermost one, what is handed
over is what the body emitted while its own scope was the innermost one, and the error of a body that fails
is the error of the whole. -/
theorem scopes_stay_balanced (s : Session) :
    (∀ (body : EmitM Unit) (log : List Event), s.Hosts body log →
      let own := ownCommands 0 log
      let left := s.behind body
      left.scopes = s.scopes ∧ left.init = s.init ++ initCommands log ∧
      perform (capture body) s = (s.conclude body fun _ => (.ok own, left)) ∧
      (∀ label onlyChain, perform (captureChain label onlyChain body) s =
        s.conclude body fun _ => (.ok ⟨label, own, onlyChain⟩, left)) ∧
      (∀ qs, perform (emitBlockUnder qs body) s =
        s.conclude body fun _ => left.offer () (own.map (Command.guarded qs))) ∧
      (∀ c, perform (runIf c body) s =
        s.conclude body fun _ => left.offer ⟨c, false⟩ (own.map (Command.guarded [.ifHolds c]))) ∧
      (∀ c, perform (runUnless c body) s =
        s.conclude body fun _ => left.offer ⟨c, true⟩ (own.map (Command.guarded [.unlessHolds c]))) ∧
      ∀ b : Branch, perform (b.orElse body) s =
        s.conclude body fun _ => left.offer () (own.map (Command.guarded [b.opposite.guard]))) ∧
    ∀ {α : Type} (body : EmitM α) (log : List Event), s.Hosts body log →
      let left := s.behind body
      left.scopes = s.scopes ∧ left.init = s.init ++ initCommands log ∧
      perform (inInit body) s = s.conclude body fun a => (.ok a, left.extendInit (ownCommands 0 log)) := by
  have init {α : Type} {body : EmitM α} {log : List Event} (h : s.Hosts body log) :
      (s.behind body).init = s.init ++ initCommands log := by
    rw [Session.behind, h.logs.replay]
    exact s.entered.init_replay log
  refine ⟨fun body log h => ⟨rfl, init h, ?_, fun label onlyChain => ?_, h.perform_emitBlockUnder,
    fun c => h.perform_block _ _, fun c => h.perform_block _ _, fun b => h.perform_emitBlockUnder _⟩,
    fun body log h => ⟨rfl, init h, ?_⟩⟩
  · rw [← bind_pure (capture body)]
    exact h.perform_capture_bind pure
  · exact h.perform_capture_bind fun own => pure (⟨label, own, onlyChain⟩ : Chain)
  · exact h.perform_inScope_bind fun result => do
      modify fun s => { s with init := s.init ++ result.2 }
      return result.1

def untidyBody : EmitM Unit := do
  emit (.setScore ⟨"v"⟩ 1)
  let _ ← attempt (capture do
    enter
    emit (.setScore ⟨"v"⟩ 2)
    (reject .noActiveScope : EmitM Unit))
  let _ ← constant 7
  emit (.setScore ⟨"v"⟩ 3)
  enter
  emit (.setScore ⟨"v"⟩ 4)

theorem scopes_stay_balanced_untidy :
    let s : Session := { scopes := [[.addObjective]] }
    let lost : EmitM Unit := do
      untidyBody
      reject (.unknownName "lost")
    let left : Session := { s with init := [.addObjective, setNumber 7], constants := [7] }
    (∃ log, s.Hosts untidyBody log) ∧ (∃ log, s.Hosts lost log) ∧
      perform (capture untidyBody) s = (.ok [.setScore ⟨"v"⟩ 1, .setScore ⟨"v"⟩ 3], left) ∧
      perform (inInit lost) s = (.error (.error (.unknownName "lost")), left) := by
  intro s lost left
  have logs : Logs untidyBody s.entered _ :=
    .bind (.emitAll _ _) rfl
      (.bind (.attempt (.map Prod.snd (.inScope
        (.bind (.enter _) rfl (.bind (.emitAll _ _) rfl (.fail _ _)))))) rfl
      (.bind (.constant _ _) rfl (.bind (.emitAll _ _) rfl (.bind (.enter _) rfl (.emitAll _ _)))))
  have tidies : s.Hosts untidyBody _ := ⟨logs, by decide, by decide⟩
  have loses : s.Hosts lost _ := ⟨.bind logs rfl (.fail _ _), by decide, by decide⟩
  refine ⟨⟨_, tidies⟩, ⟨_, loses⟩, ?_, ?_⟩
  · rw [((scopes_stay_balanced s).1 untidyBody _ tidies).2.2.1]
    rfl
  · rw [((scopes_stay_balanced s).2 lost _ loses).2.2]
    rfl

end BlockComputer
