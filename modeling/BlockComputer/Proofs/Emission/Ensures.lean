import BlockComputer.Proofs.Emission.Basic
import BlockComputer.Relocation
import Mathlib.Data.List.Forall2

/-!
What holds of the result of a step that succeeds.

`Ensures` says nothing about the session and nothing about failing, so it holds of steps whose parts
come from outside, such as the generators of cards. A captured body that emits a known part first hands
over that part first, and the chains of a group are told by the bodies of its rows.
-/

namespace BlockComputer

variable {α β : Type}

def Ensures (x : EmitM α) (P : α → Prop) : Prop :=
  ∀ s a s', perform x s = (.ok a, s') → P a

theorem perform_attempt_eq_ok {x : EmitM α} {s s' : Session} {r : Except Error α}
    (h : perform (attempt x) s = (.ok r, s')) :
    (∃ a, r = .ok a ∧ perform x s = (.ok a, s')) ∨ ∃ e, r = .error e := by
  rw [perform_attempt] at h
  cases inner : perform x s with
  | mk r' t =>
    rw [inner] at h
    cases r' with
    | ok a =>
      cases h
      exact .inl ⟨a, rfl, rfl⟩
    | error e =>
      cases e with
      | error cause =>
        cases h
        exact .inr ⟨cause, rfl⟩
      | crash => cases h

theorem perform_inScope_eq_ok {x : EmitM α} {s s' : Session} {a : α} {cs : List Command}
    (h : perform (inScope x) s = (.ok (a, cs), s')) :
    ∃ t, perform x { s with scopes := [] :: s.scopes } = (.ok a, t) := by
  unfold inScope at h
  obtain ⟨_, _, same, h⟩ := perform_bind_eq_ok h
  cases same
  obtain ⟨_, _, entered, h⟩ := perform_bind_eq_ok h
  cases entered
  obtain ⟨outcome, _, attempted, h⟩ := perform_bind_eq_ok h
  rcases perform_attempt_eq_ok attempted with ⟨b, rfl, inner⟩ | ⟨e, rfl⟩
  · obtain ⟨_, _, -, h⟩ := perform_bind_eq_ok h
    obtain ⟨_, _, -, h⟩ := perform_bind_eq_ok h
    cases h
    exact ⟨_, inner⟩
  · obtain ⟨_, _, -, h⟩ := perform_bind_eq_ok h
    obtain ⟨_, _, -, h⟩ := perform_bind_eq_ok h
    cases h

namespace Ensures

variable {x : EmitM α} {P Q : α → Prop} {R : β → Prop}

theorem pure {a : α} (h : P a) : Ensures (pure a) P := by
  intro s b s' made
  cases made
  exact h

theorem bind {f : α → EmitM β} (first : Ensures x P) (second : ∀ a, P a → Ensures (f a) R) :
    Ensures (x >>= f) R := by
  intro s b s' made
  obtain ⟨a, t, madeFirst, madeSecond⟩ := perform_bind_eq_ok made
  exact second a (first s a t madeFirst) t b s' madeSecond

theorem any (x : EmitM α) : Ensures x fun _ => True :=
  fun _ _ _ _ => trivial

theorem mono (h : Ensures x P) (imp : ∀ a, P a → Q a) : Ensures x Q :=
  fun s a s' made => imp a (h s a s' made)

theorem lift (e : Except Failure α) : Ensures (liftM e : EmitM α) fun a => e = .ok a :=
  fun _ _ _ made => (perform_lift_eq_ok made).1

theorem map {f : α → β} (h : Ensures x P) (imp : ∀ a, P a → R (f a)) : Ensures (f <$> x) R := by
  rw [map_eq_pure_bind]
  exact h.bind fun a ha => .pure (imp a ha)

theorem inInit (h : Ensures x P) : Ensures (inInit x) P := by
  intro s a s' made
  obtain ⟨⟨b, cs⟩, t, inner, last⟩ := perform_bind_eq_ok made
  obtain ⟨u, body⟩ := perform_inScope_eq_ok inner
  obtain ⟨_, _, _, returned⟩ := perform_bind_eq_ok last
  cases returned
  exact h _ _ _ body

end Ensures

/-- The commands are what capturing the body hands over, in some session. -/
def CapturedFrom (x : EmitM Unit) (cs : List Command) : Prop :=
  ∃ s s', perform (capture x) s = (.ok cs, s')

theorem Emits.of_capturedFrom {x : EmitM Unit} {cs ds : List Command} {ks : List Int32}
    (h : Emits x () cs ks) (captured : CapturedFrom x ds) : ds = cs := by
  obtain ⟨s, s', made⟩ := captured
  rw [h.perform_capture] at made
  cases made
  rfl

theorem CapturedFrom.false_of_fails {x : EmitM Unit} {cs : List Command}
    (captured : CapturedFrom x cs) (fails : Ensures x fun _ => False) : False := by
  obtain ⟨s, s', made⟩ := captured
  rw [capture, map_eq_pure_bind] at made
  obtain ⟨⟨_, ds⟩, _, inner, -⟩ := perform_bind_eq_ok made
  obtain ⟨_, body⟩ := perform_inScope_eq_ok inner
  exact fails _ _ _ body

/-- The step emits the same in all sessions, or never succeeds. -/
def EmitsOrFails (x : EmitM Unit) : Prop :=
  (∃ cs ks, Emits x () cs ks) ∨ Ensures x fun _ => False

def rowLabel (label name : String) : String :=
  s!"{label}/{name}"

structure Chain.IsRow (label : String) (onlyChain : Bool) (row : String × EmitM Unit)
    (chain : Chain) : Prop where
  label_eq : chain.label = rowLabel label row.1
  onlyChain_eq : chain.onlyChain = onlyChain
  commands : CapturedFrom row.2 chain.commands

namespace Ensures

theorem captureChain (label : String) (onlyChain : Bool) (body : EmitM Unit) :
    Ensures (captureChain label onlyChain body) fun chain =>
      chain.label = label ∧ chain.onlyChain = onlyChain ∧ CapturedFrom body chain.commands := by
  intro s chain s' made
  obtain ⟨cs, t, captured, returned⟩ := perform_bind_eq_ok made
  cases returned
  exact ⟨rfl, rfl, s, _, captured⟩

theorem addRows (g : ChainGroup) (rows : List (String × EmitM Unit)) :
    Ensures (g.addRows rows) fun g' =>
      ∃ chains, g' = { g with chains := g.chains ++ chains } ∧
        List.Forall₂ (Chain.IsRow g.label g.onlyChain) rows chains := by
  induction rows generalizing g with
  | nil => exact .pure ⟨[], by simp, .nil⟩
  | cons row rows ih =>
    refine .bind (P := fun g' => ∃ chain, g' = g.add chain ∧ chain.IsRow g.label g.onlyChain row)
      ?_ ?_
    · refine .bind (captureChain _ _ _) fun chain ⟨label, only, captured⟩ => .pure ?_
      exact ⟨chain, rfl, label, only, captured⟩
    · rintro _ ⟨chain, rfl, isRow⟩
      refine (ih (g.add chain)).mono ?_
      rintro _ ⟨chains, rfl, areRows⟩
      refine ⟨chain :: chains, ?_, .cons isRow areRows⟩
      simp [ChainGroup.add]

end Ensures

end BlockComputer
