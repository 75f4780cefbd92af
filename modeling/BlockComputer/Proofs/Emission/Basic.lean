import BlockComputer.Score.Arithmetic
import Mathlib.Algebra.Group.Int.Defs
import Mathlib.Algebra.Group.Nat.Defs

/-!
What a generation step emits.

Most steps do only two things to the session: they append commands to the innermost scope and
materialize constants. `Emits` says which commands and which constants, whatever the session was, so
what a composed step emits is read off its parts. A captured body hands over exactly its commands and
leaves the open scopes as they were.
-/

namespace BlockComputer

def perform {σ α : Type} (x : ExceptT Failure (StateM σ) α) (s : σ) : Except Failure α × σ :=
  x.run.run s

namespace Session

def memo (s : Session) (k : Int32) : Session :=
  if k ∈ s.constants then s
  else { s with
    constants := s.constants ++ [k]
    init := s.init ++ [.setScore (constantNamed k) k] }

def memoize (s : Session) (ks : List Int32) : Session :=
  ks.foldl memo s

def append (s : Session) (cs : List Command) : Session :=
  match s.scopes with
  | [] => s
  | top :: others => { s with scopes := (top ++ cs) :: others }

variable (s : Session)

@[simp] theorem scopes_memo (k : Int32) : (s.memo k).scopes = s.scopes := by
  unfold memo
  split <;> rfl

@[simp] theorem memoize_nil : s.memoize [] = s := rfl

@[simp] theorem memoize_cons (k : Int32) (ks : List Int32) :
    s.memoize (k :: ks) = (s.memo k).memoize ks := rfl

theorem memoize_append (ks ls : List Int32) :
    s.memoize (ks ++ ls) = (s.memoize ks).memoize ls := by
  simp [memoize]

@[simp] theorem scopes_memoize (ks : List Int32) : (s.memoize ks).scopes = s.scopes := by
  induction ks generalizing s with
  | nil => rfl
  | cons k ks ih => rw [memoize_cons, ih, scopes_memo]

theorem memoize_withScopes (scopes : List (List Command)) (ks : List Int32) :
    ({ s with scopes := scopes } : Session).memoize ks = { s.memoize ks with scopes := scopes } := by
  induction ks generalizing s with
  | nil => rfl
  | cons k ks ih =>
    by_cases known : k ∈ s.constants
    · simpa [memo, known] using ih s
    · simpa [memo, known] using ih (s.memo k)

theorem memo_append (cs : List Command) (k : Int32) :
    (s.append cs).memo k = (s.memo k).append cs := by
  cases h : s.scopes with
  | nil => simp [append, h]
  | cons top others =>
    by_cases known : k ∈ s.constants <;> simp [append, h, memo, known]

theorem memoize_append_commands (cs : List Command) (ks : List Int32) :
    (s.append cs).memoize ks = (s.memoize ks).append cs := by
  induction ks generalizing s with
  | nil => rfl
  | cons k ks ih => rw [memoize_cons, memo_append, ih, memoize_cons]

theorem append_append (cs ds : List Command) : (s.append cs).append ds = s.append (cs ++ ds) := by
  cases h : s.scopes <;> simp [append, h]

theorem append_nil : s.append [] = s := by
  obtain ⟨scopes, init, names, constants, nextTag⟩ := s
  cases scopes <;> simp [append]

theorem scopes_append_ne_nil (cs : List Command) (h : s.scopes ≠ []) :
    (s.append cs).scopes ≠ [] := by
  cases h' : s.scopes with
  | nil => exact absurd h' h
  | cons top others => simp [append, h']

theorem freshName_eq_or (name : String) :
    s.freshName name = name ∨ ∃ n : Nat, s.freshName name = s!"{name}{n}" := by
  unfold freshName
  split
  · dsimp only
    generalize found : List.find? _ _ = trial
    cases trial with
    | none => exact .inl rfl
    | some trial =>
      obtain ⟨n, -, rfl⟩ := List.mem_map.1 (List.mem_of_find?_eq_some found)
      exact .inr ⟨n, rfl⟩
  · exact .inl rfl

end Session

section perform

variable {σ α β : Type}

@[simp] theorem perform_pure (a : α) (s : σ) :
    perform (pure a : ExceptT Failure (StateM σ) α) s = (.ok a, s) := rfl

theorem perform_bind (x : ExceptT Failure (StateM σ) α) (f : α → ExceptT Failure (StateM σ) β)
    (s : σ) :
    perform (x >>= f) s =
      match perform x s with
      | (.ok a, s') => perform (f a) s'
      | (.error e, s') => (.error e, s') := by
  change (match x.run s with | (r, s') => (ExceptT.bindCont f r).run s') = _
  unfold perform
  cases h : x.run.run s with
  | mk r s' =>
    change x.run s = (r, s') at h
    rw [h]
    cases r <;> rfl

theorem perform_bind_eq_ok {x : ExceptT Failure (StateM σ) α}
    {f : α → ExceptT Failure (StateM σ) β} {s s' : σ} {b : β}
    (h : perform (x >>= f) s = (.ok b, s')) :
    ∃ a t, perform x s = (.ok a, t) ∧ perform (f a) t = (.ok b, s') := by
  rw [perform_bind] at h
  cases first : perform x s with
  | mk r t =>
    rw [first] at h
    cases r with
    | ok a => exact ⟨a, t, rfl, h⟩
    | error e => cases h

theorem perform_lift_eq_ok {e : Except Failure α} {s s' : σ} {a : α}
    (h : perform (liftM e : ExceptT Failure (StateM σ) α) s = (.ok a, s')) : e = .ok a ∧ s' = s := by
  cases e with
  | ok b =>
    cases h
    exact ⟨rfl, rfl⟩
  | error cause => cases h

@[simp] theorem perform_modify (f : σ → σ) (s : σ) :
    perform (modify f : ExceptT Failure (StateM σ) Unit) s = (.ok (), f s) := rfl

theorem perform_map (f : α → β) (x : ExceptT Failure (StateM σ) α) (s : σ) :
    perform (f <$> x) s = ((perform x s).1.map f, (perform x s).2) := by
  rw [map_eq_pure_bind, perform_bind]
  cases perform x s with
  | mk r s' => cases r <;> rfl

variable (s : Session)

@[simp] theorem perform_get : perform (get : EmitM Session) s = (.ok s, s) := rfl

@[simp] theorem perform_set (s' : Session) :
    perform (set s' : EmitM PUnit) s = (.ok (), s') := rfl

@[simp] theorem perform_reject (e : Error) :
    perform (reject e : EmitM α) s = (.error (.error e), s) := rfl

theorem perform_tryCatch (x : EmitM α) (f : Failure → EmitM α) :
    perform (tryCatch x f) s =
      match perform x s with
      | (.ok a, s') => (.ok a, s')
      | (.error e, s') => perform (f e) s' := by
  simp only [perform, tryCatch, tryCatchThe, MonadExceptOf.tryCatch, ExceptT.tryCatch, ExceptT.mk,
    ExceptT.run, bind, StateT.bind, StateT.run]
  cases x s with
  | mk r s' => cases r <;> rfl

theorem perform_attempt (x : EmitM α) :
    perform (attempt x) s =
      match perform x s with
      | (.ok a, s') => (.ok (.ok a), s')
      | (.error (.error e), s') => (.ok (.error e), s')
      | (.error .crash, s') => (.error .crash, s') := by
  rw [attempt, perform_tryCatch, perform_map]
  cases perform x s with
  | mk r s' =>
    cases r with
    | ok a => rfl
    | error e => cases e <;> rfl

def endScope (depth : Nat) (outcome : Except Error α) : EmitM (α × List Command) := do
  unwindTo (depth + 1)
  let commands ← leave
  match outcome with
  | .ok value => return (value, commands)
  | .error cause => reject cause

theorem inScope_eq (x : EmitM α) : inScope x = (do
    let s ← get
    enter
    attempt x >>= endScope s.depth) :=
  rfl

theorem perform_inScope_eq (x : EmitM α) : perform (inScope x) s =
    match perform x { s with scopes := [] :: s.scopes } with
    | (.ok a, t) => perform (endScope s.depth (.ok a)) t
    | (.error (.error cause), t) => perform (endScope s.depth (.error cause)) t
    | (.error .crash, t) => (.error .crash, t) := by
  change perform (attempt x >>= endScope s.depth) { s with scopes := [] :: s.scopes } = _
  rw [perform_bind, perform_attempt]
  rcases perform x { s with scopes := [] :: s.scopes } with ⟨(cause | _) | a, t⟩ <;> rfl

theorem perform_endScope {t : Session} {above below : List (List Command)} {own : List Command}
    (scopes : t.scopes = above ++ own :: below) (outcome : Except Error α) :
    perform (endScope below.length outcome) t =
      (match outcome with | .ok a => .ok (a, own) | .error cause => .error (.error cause),
        { t with scopes := below }) := by
  have count : t.scopes.length - (below.length + 1) = above.length := by
    rw [scopes, List.length_append, List.length_cons, Nat.add_sub_cancel]
  have unwound : t.scopes.drop (t.scopes.length - (below.length + 1)) = own :: below := by
    rw [count, scopes, List.drop_left]
  rw [endScope, perform_bind, unwindTo, perform_modify]
  simp only [unwound, perform_bind, leave, perform_get, perform_set, perform_pure]
  cases outcome <;> rfl

theorem perform_inScope {x : EmitM α} {s' : Session} {a : α} {cs : List Command}
    (h : perform x { s with scopes := [] :: s.scopes } = (.ok a, s'))
    (scopes : s'.scopes = cs :: s.scopes) :
    perform (inScope x) s = (.ok (a, cs), { s' with scopes := s.scopes }) := by
  have alone : s'.scopes = [] ++ cs :: s.scopes := scopes
  rw [perform_inScope_eq, h]
  exact perform_endScope alone (.ok a)

end perform

/-- In every session with an open scope the step returns `a`, appends the commands `cs` and
materializes the constants `ks`, and does nothing else. -/
def Emits {α : Type} (x : EmitM α) (a : α) (cs : List Command) (ks : List Int32) : Prop :=
  ∀ s : Session, s.scopes ≠ [] → perform x s = (.ok a, (s.memoize ks).append cs)

namespace Emits

variable {α β : Type} {x : EmitM α} {a : α} {b : β} {cs ds : List Command} {ks ls : List Int32}

theorem pure (a : α) : Emits (pure a) a [] [] := by
  intro s _
  simp [Session.append_nil]

theorem bind {f : α → EmitM β} (first : Emits x a cs ks) (second : Emits (f a) b ds ls) :
    Emits (x >>= f) b (cs ++ ds) (ks ++ ls) := by
  intro s open_
  have still : ((s.memoize ks).append cs).scopes ≠ [] :=
    Session.scopes_append_ne_nil _ _ (by simpa using open_)
  rw [perform_bind, first s open_]
  simp only
  rw [second _ still, Session.memoize_append_commands, Session.append_append,
    Session.memoize_append]

theorem seq {y : EmitM β} (first : Emits x a cs ks) (second : Emits y b ds ls) :
    Emits (x >>= fun _ => y) b (cs ++ ds) (ks ++ ls) :=
  first.bind second

theorem emitAll (cs : List Command) : Emits (emitAll cs) () cs [] := by
  intro s open_
  obtain ⟨scopes, init, names, constants, nextTag⟩ := s
  cases scopes with
  | nil => exact absurd rfl open_
  | cons top others =>
    cases cs <;> simp [BlockComputer.emitAll, perform_bind, perform_map, Session.append, Except.map]

theorem emit (c : Command) : Emits (emit c) () [c] [] :=
  emitAll [c]

theorem emitUnder (qs : List Qualifier) (c : Command) : Emits (emitUnder qs c) () [c.guarded qs] [] :=
  emit _

theorem constant (k : Int32) : Emits (constant k) (constantNamed k) [] [k] := by
  intro s _
  by_cases known : k ∈ s.constants <;>
    simp [BlockComputer.constant, emitInit, perform_bind, perform_map, known, Session.memo,
      Session.append_nil, Except.map]

theorem commands_eq {a' : α} (h : Emits x a cs ks) (h' : Emits x a' ds ls) : cs = ds := by
  have opened : ({ scopes := [[]] } : Session).scopes ≠ [] := List.cons_ne_nil _ _
  have same := (h _ opened).symm.trans (h' _ opened)
  have scopes := congrArg (fun r => Session.scopes r.2) same
  simpa [Session.append] using scopes

theorem perform_capture {x : EmitM Unit} (h : Emits x () cs ks) (s : Session) :
    perform (capture x) s = (.ok cs, s.memoize ks) := by
  have body := h { s with scopes := [] :: s.scopes } (by simp)
  rw [Session.memoize_withScopes] at body
  rw [capture, perform_map, perform_inScope s body (show _ = cs :: s.scopes by simp [Session.append])]
  simp only [Session.append, Except.map, List.nil_append]
  rw [← Session.scopes_memoize s ks]

theorem capture {x : EmitM Unit} (h : Emits x () cs ks) : Emits (capture x) cs [] ks := by
  intro s _
  rw [h.perform_capture, Session.append_nil]

theorem emitBlockUnder {x : EmitM Unit} (h : Emits x () cs ks) (qs : List Qualifier) :
    Emits (emitBlockUnder qs x) () (cs.map (Command.guarded qs)) ks := by
  have guarded := h.capture.bind (f := emitAllUnder qs) (emitAll (cs.map (Command.guarded qs)))
  rwa [List.nil_append, List.append_nil] at guarded

theorem emitBlock {x : EmitM Unit} (h : Emits x () cs ks) (b : Branch) :
    Emits (b.emitBlock x) b (cs.map (Command.guarded [b.guard])) ks := by
  have block := (h.emitBlockUnder [b.guard]).bind (f := fun _ => Pure.pure b) (pure b)
  rwa [List.append_nil, List.append_nil] at block

theorem runIf {x : EmitM Unit} (h : Emits x () cs ks) (c : Condition) :
    Emits (runIf c x) ⟨c, false⟩ (cs.map (Command.guarded [.ifHolds c])) ks :=
  h.emitBlock _

theorem runUnless {x : EmitM Unit} (h : Emits x () cs ks) (c : Condition) :
    Emits (runUnless c x) ⟨c, true⟩ (cs.map (Command.guarded [.unlessHolds c])) ks :=
  h.emitBlock _

theorem orElse {x : EmitM Unit} (h : Emits x () cs ks) (b : Branch) :
    Emits (b.orElse x) () (cs.map (Command.guarded [b.opposite.guard])) ks :=
  h.emitBlockUnder _

end Emits

end BlockComputer
