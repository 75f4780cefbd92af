import BlockComputer.Proofs.Emission.Ensures
import BlockComputer.Session.Entity

/-!
How a step can fail.

`FailsWith` bounds the failures of a step in all sessions. A captured body fails as it does alone, or
because it has closed the scope that it was captured in. No step of a session reports that a chain is too
long for a window; only the check of a window does.
-/

namespace BlockComputer

variable {σ α β : Type}

def FailsWith (x : ExceptT Failure (StateM σ) α) (P : Failure → Prop) : Prop :=
  ∀ s e s', perform x s = (.error e, s') → P e

theorem perform_bind_eq_error {x : ExceptT Failure (StateM σ) α}
    {f : α → ExceptT Failure (StateM σ) β} {s s' : σ} {e : Failure}
    (h : perform (x >>= f) s = (.error e, s')) :
    perform x s = (.error e, s') ∨
      ∃ a t, perform x s = (.ok a, t) ∧ perform (f a) t = (.error e, s') := by
  rw [perform_bind] at h
  cases first : perform x s with
  | mk r t =>
    rw [first] at h
    cases r with
    | ok a => exact .inr ⟨a, t, rfl, h⟩
    | error e =>
      cases h
      exact .inl rfl

section scopes

variable {x : EmitM α} {s s' : Session} {e : Failure}

theorem perform_leave_eq_error (h : perform leave s = (.error e, s')) : e = .error .noActiveScope := by
  unfold leave at h
  rw [perform_bind, perform_get] at h
  cases scopes : s.scopes with
  | nil =>
    simp only [scopes, perform_reject] at h
    cases h
    rfl
  | cons top others =>
    simp only [scopes, perform_bind, perform_set, perform_pure] at h
    cases h

theorem perform_endScope_eq_error {depth : Nat} {outcome : Except Error α}
    (h : perform (endScope depth outcome) s = (.error e, s')) :
    (∃ cause, outcome = .error cause ∧ e = .error cause) ∨ e = .error .noActiveScope := by
  obtain unwound | ⟨_, _, -, h⟩ := perform_bind_eq_error h
  · cases unwound
  obtain left | ⟨cs, _, -, h⟩ := perform_bind_eq_error h
  · exact .inr (perform_leave_eq_error left)
  cases outcome with
  | ok a => cases h
  | error cause =>
    cases h
    exact .inl ⟨cause, rfl, rfl⟩

theorem perform_inScope_eq_error (h : perform (inScope x) s = (.error e, s')) :
    (∃ t, perform x { s with scopes := [] :: s.scopes } = (.error e, t)) ∨ e = .error .noActiveScope := by
  rw [perform_inScope_eq] at h
  cases inner : perform x { s with scopes := [] :: s.scopes } with
  | mk r t =>
    rw [inner] at h
    rcases r with (cause | _) | a
    · obtain ⟨_, same, rfl⟩ | closed := perform_endScope_eq_error h
      · cases same
        exact .inl ⟨_, rfl⟩
      · exact .inr closed
    · cases h
      exact .inl ⟨_, rfl⟩
    · obtain ⟨_, same, -⟩ | closed := perform_endScope_eq_error h
      · cases same
      · exact .inr closed

theorem perform_captureChain_eq_error {body : EmitM Unit} {label : String} {onlyChain : Bool}
    (h : perform (captureChain label onlyChain body) s = (.error e, s')) :
    (∃ t, perform body { s with scopes := [] :: s.scopes } = (.error e, t)) ∨
      e = .error .noActiveScope := by
  obtain captured | ⟨_, _, -, h⟩ := perform_bind_eq_error h
  · rw [capture, map_eq_pure_bind] at captured
    obtain inner | ⟨_, _, -, h⟩ := perform_bind_eq_error captured
    · exact perform_inScope_eq_error inner
    · cases h
  · cases h

/-- Rows fail at one of them, when the rows before it are in the group. -/
theorem exists_row_of_perform_addRows_eq_error {rows : List (String × EmitM Unit)} {g : ChainGroup}
    (h : perform (g.addRows rows) s = (.error e, s')) :
    ∃ before row after g' t, rows = before ++ row :: after ∧
      perform (g.addRows before) s = (.ok g', t) ∧
      ((∃ t', perform row.2 { t with scopes := [] :: t.scopes } = (.error e, t')) ∨
        e = .error .noActiveScope) := by
  induction rows generalizing g s with
  | nil => cases h
  | cons row rows ih =>
    obtain here | ⟨g₁, s₁, first, later⟩ := perform_bind_eq_error h
    · obtain captured | ⟨_, _, -, h⟩ := perform_bind_eq_error here
      · exact ⟨[], row, rows, g, s, rfl, rfl, perform_captureChain_eq_error captured⟩
      · cases h
    · obtain ⟨before, own, after, g', t, rfl, made, fails⟩ := ih later
      refine ⟨row :: before, own, after, g', t, rfl, ?_, fails⟩
      refine (perform_bind _ _ _).trans ?_
      rw [first]
      exact made

end scopes

namespace FailsWith

variable {P Q : Failure → Prop}

section general

variable {x : ExceptT Failure (StateM σ) α} {f : α → ExceptT Failure (StateM σ) β}

theorem mono (h : FailsWith x P) (imp : ∀ e, P e → Q e) : FailsWith x Q :=
  fun s e s' failed => imp e (h s e s' failed)

theorem pure (a : α) : FailsWith (Pure.pure a : ExceptT Failure (StateM σ) α) P :=
  fun _ _ _ failed => nomatch failed

theorem bind (first : FailsWith x P) (second : ∀ a, FailsWith (f a) P) : FailsWith (x >>= f) P := by
  intro s e s' failed
  rcases perform_bind_eq_error failed with here | ⟨a, t, made, later⟩
  · exact first s e s' here
  · exact second a t e s' later

theorem map (g : α → β) (h : FailsWith x P) : FailsWith (g <$> x) P := by
  rw [map_eq_pure_bind]
  exact h.bind fun a => .pure (g a)

theorem lift {e : Except Failure α} (h : ∀ cause, e = .error cause → P cause) :
    FailsWith (liftM e : ExceptT Failure (StateM σ) α) P := by
  intro s cause s' failed
  cases e with
  | ok a => cases failed
  | error cause =>
    cases failed
    exact h cause rfl

theorem modify (g : σ → σ) : FailsWith (modify g : ExceptT Failure (StateM σ) PUnit) P :=
  fun _ _ _ failed => nomatch failed

theorem throw {e : Failure} (h : P e) : FailsWith (throw e : ExceptT Failure (StateM σ) α) P := by
  intro s e' s' failed
  cases failed
  exact h

theorem ite {c : Prop} [Decidable c] {y : ExceptT Failure (StateM σ) α} (yes : FailsWith x P)
    (no : FailsWith y P) : FailsWith (if c then x else y) P := by
  split
  · exact yes
  · exact no

theorem thenIf {c : Prop} [Decidable c] {x : ExceptT Failure (StateM σ) PUnit}
    {f : PUnit → ExceptT Failure (StateM σ) β} (first : FailsWith x P)
    (second : ∀ u, FailsWith (f u) P) : FailsWith (if c then x >>= f else f ⟨⟩) P :=
  .ite (.bind first second) (second ⟨⟩)

end general

variable {x : EmitM α} {f : α → EmitM β} {R : α → Prop}

theorem bind_of_ensures (first : FailsWith x P) (returns : Ensures x R)
    (second : ∀ a, R a → FailsWith (f a) P) : FailsWith (x >>= f) P := by
  intro s e s' failed
  rcases perform_bind_eq_error failed with here | ⟨a, t, made, later⟩
  · exact first s e s' here
  · exact second a (returns s a t made) t e s' later

theorem inScope (h : FailsWith x P) (noScope : P (.error .noActiveScope)) :
    FailsWith (inScope x) P := by
  intro s e s' failed
  rcases perform_inScope_eq_error failed with ⟨t, inner⟩ | rfl
  · exact h _ e t inner
  · exact noScope

theorem inInit (h : FailsWith x P) (noScope : P (.error .noActiveScope)) : FailsWith (inInit x) P :=
  .bind (.inScope h noScope) fun _ => .bind (.modify _) fun _ => .pure _

theorem captureChain {body : EmitM Unit} (h : FailsWith body P) (noScope : P (.error .noActiveScope))
    (label : String) (onlyChain : Bool) : FailsWith (captureChain label onlyChain body) P :=
  .bind (.map _ (.inScope h noScope)) fun _ => .pure _

theorem addRows {rows : List (String × EmitM Unit)}
    (h : ∀ row ∈ rows, ∀ label onlyChain, FailsWith (BlockComputer.captureChain label onlyChain row.2) P)
    (g : ChainGroup) : FailsWith (g.addRows rows) P := by
  induction rows generalizing g with
  | nil => exact .pure g
  | cons row rows ih =>
    obtain ⟨first, others⟩ := List.forall_mem_cons.1 h
    exact .bind (.bind (first _ _) fun _ => .pure _) fun g' => ih others g'

end FailsWith

theorem FailsWith.emitAll {P : Failure → Prop} (noScope : P (.error .noActiveScope))
    (cs : List Command) : FailsWith (emitAll cs) P := by
  intro s e s' failed
  unfold BlockComputer.emitAll at failed
  rw [perform_bind, perform_get] at failed
  cases cs with
  | nil => cases failed
  | cons c cs =>
    cases scopes : s.scopes with
    | nil =>
      simp only [scopes, perform_reject] at failed
      cases failed
      exact noScope
    | cons top others =>
      simp only [scopes, perform_set] at failed
      cases failed

theorem FailsWith.registerName {P : Failure → Prop} {name : String}
    (taken : P (.error (.duplicateName name))) : FailsWith (registerName name) P := by
  intro s e s' failed
  unfold BlockComputer.registerName at failed
  rw [perform_bind, perform_get] at failed
  by_cases used : s.isRegistered name = true
  · simp only [used, if_true, perform_reject] at failed
    cases failed
    exact taken
  · simp only [used] at failed
    cases failed

def Failure.IsOverflow (e : Failure) : Prop :=
  ∃ label length window, e = .error (.windowOverflow label length window)

theorem not_isOverflow_crash : ¬ Failure.crash.IsOverflow :=
  fun ⟨_, _, _, same⟩ => nomatch same

theorem not_isOverflow_noActiveScope : ¬ (Failure.error .noActiveScope).IsOverflow :=
  fun ⟨_, _, _, same⟩ => nomatch same

/-- The step never reports that a chain does not fit in a window. -/
def NeverOverflows (x : EmitM α) : Prop :=
  FailsWith x fun e => ¬ e.IsOverflow

namespace NeverOverflows

variable {x y : EmitM α} {f : α → EmitM β} {body : EmitM Unit}

theorem pure (a : α) : NeverOverflows (Pure.pure a) :=
  FailsWith.pure a

theorem bind (first : NeverOverflows x) (second : ∀ a, NeverOverflows (f a)) :
    NeverOverflows (x >>= f) :=
  FailsWith.bind first second

theorem exists_ok (never : NeverOverflows x) {s s' : Session} {e : Failure} (overflow : e.IsOverflow)
    (h : perform (x >>= f) s = (.error e, s')) :
    ∃ a t, perform x s = (.ok a, t) ∧ perform (f a) t = (.error e, s') :=
  (perform_bind_eq_error h).resolve_left fun here => never s e s' here overflow

theorem ite {c : Prop} [Decidable c] (yes : NeverOverflows x) (no : NeverOverflows y) :
    NeverOverflows (if c then x else y) :=
  FailsWith.ite yes no

theorem thenIf {c : Prop} [Decidable c] {x : EmitM Unit} {f : Unit → EmitM β}
    (first : NeverOverflows x) (second : ∀ u, NeverOverflows (f u)) :
    NeverOverflows (if c then x >>= f else f ()) :=
  FailsWith.thenIf first second

theorem throw {e : Failure} (other : ¬ e.IsOverflow) : NeverOverflows (throw e : EmitM α) :=
  FailsWith.throw other

theorem narrow (n : Int) : NeverOverflows (liftM (narrow n) : EmitM Int32) := by
  refine FailsWith.lift fun cause failed => ?_
  unfold BlockComputer.narrow at failed
  split at failed
  · cases failed
  · cases failed
    exact not_isOverflow_crash

theorem inInit (h : NeverOverflows x) : NeverOverflows (inInit x) :=
  FailsWith.inInit h not_isOverflow_noActiveScope

theorem captureChain (h : NeverOverflows body) (label : String) (onlyChain : Bool) :
    NeverOverflows (captureChain label onlyChain body) :=
  FailsWith.captureChain h not_isOverflow_noActiveScope label onlyChain

theorem emitAll (cs : List Command) : NeverOverflows (emitAll cs) :=
  FailsWith.emitAll not_isOverflow_noActiveScope cs

theorem emit (c : Command) : NeverOverflows (emit c) :=
  emitAll [c]

theorem emitBlockUnder (h : NeverOverflows body) (qs : List Qualifier) :
    NeverOverflows (emitBlockUnder qs body) :=
  .bind (FailsWith.map _ (FailsWith.inScope h not_isOverflow_noActiveScope)) fun _ => emitAll _

theorem runIf (h : NeverOverflows body) (c : Condition) : NeverOverflows (runIf c body) :=
  .bind (h.emitBlockUnder _) fun _ => .pure _

theorem orElse (h : NeverOverflows body) (b : Branch) : NeverOverflows (b.orElse body) :=
  h.emitBlockUnder _

theorem constant (k : Int32) : NeverOverflows (constant k) := by
  intro s e s' failed
  unfold BlockComputer.constant at failed
  rw [perform_bind, perform_get] at failed
  by_cases known : k ∈ s.constants
  · simp only [known, not_true_eq_false, if_false] at failed
    cases failed
  · simp only [known, not_false_eq_true, if_true] at failed
    cases failed

theorem addNumber (v : Variable) (amount : Int) : NeverOverflows (v.addNumber amount) :=
  .ite (emit _) (.bind (constant _) fun _ => emit _)

theorem operate (v : Variable) {op : ScoreOp} (source : Source) (ne : op ≠ .swap) :
    NeverOverflows (v.operate op source) := by
  cases source with
  | «variable» u => exact emit _
  | literal k =>
    cases op with
    | set => exact emit _
    | add => exact addNumber v _
    | sub => exact addNumber v _
    | swap => exact absurd rfl ne
    | mul | div | mod | min | max => exact .bind (constant k) fun _ => emit _

theorem assign (v : Variable) (source : Source) : NeverOverflows (v.assign source) :=
  operate v source (by decide)

theorem invalidWidth (width : Nat) : NeverOverflows (reject (.invalidWidth width) : EmitM α) :=
  throw fun ⟨_, _, _, same⟩ => nomatch same

theorem bitslice (v : Variable) (skip length : UInt32) (last : Bool) :
    NeverOverflows (v.bitslice skip length last) :=
  .thenIf (throw not_isOverflow_crash) fun _ => .thenIf (invalidWidth _) fun _ =>
    .thenIf (operate v _ (by decide)) fun _ => .ite (operate v _ (by decide)) (pure ())

theorem signExtend (v : Variable) (width : UInt32) : NeverOverflows (v.signExtend width) :=
  .thenIf (invalidWidth _) fun _ => .bind (.runIf (operate v _ (by decide)) _) fun _ => pure ()

end NeverOverflows

end BlockComputer
