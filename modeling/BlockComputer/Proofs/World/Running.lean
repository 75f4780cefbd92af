import BlockComputer.Proofs.World.Execution
import Mathlib.Data.Set.Basic

/-!
Running a chain unit by unit.

`runUnits` runs a given number of units and stops, so a run can be cut into parts; a chain that has
run all its units and is not followed by a chain unit has been run to its end.
-/

namespace BlockComputer

variable {start : Site} {first : UnitKind} {w u : World}

def kindAt (first : UnitKind) (step : Nat) : UnitKind :=
  if step = 0 then first else .chain

namespace World

def HoldsUnits (w : World) (start : Site) (first : UnitKind) (step : Nat) (cs : List Command) :
    Prop :=
  ∀ i (h : i < cs.length),
    w.blocks (start.shift (step + i)) = some (.unit (kindAt first (step + i)) cs[i])

def runUnits (start : Site) : (count : Nat) → (step : Nat) → World → Option World
  | 0, _, w => some w
  | count + 1, step, w =>
    (w.commandAt? start (start.shift step)).bind fun c =>
      runUnits start count (step + 1) (c.after (start.shift step).centre w)

theorem HoldsUnits.commandAt? {step : Nat} {c : Command} {cs : List Command}
    (h : w.HoldsUnits start first step (c :: cs)) :
    w.commandAt? start (start.shift step) = some c := by
  have block := h 0 (by simp)
  simp only [Nat.add_zero, List.getElem_cons_zero] at block
  unfold World.commandAt?
  rw [block]
  by_cases here : step = 0
  · simp [here]
  · simp [kindAt, here]

theorem holdsUnits_append {step : Nat} {cs ds : List Command} :
    w.HoldsUnits start first step (cs ++ ds) ↔
      w.HoldsUnits start first step cs ∧ w.HoldsUnits start first (step + cs.length) ds := by
  constructor
  · intro h
    refine ⟨fun i hi => ?_, fun i hi => ?_⟩
    · rw [h i (by simp; omega), List.getElem_append_left hi]
    · have block := h (cs.length + i) (by simp; omega)
      rw [List.getElem_append_right (by omega)] at block
      simpa [Nat.add_assoc] using block
  · rintro ⟨left, right⟩ i hi
    by_cases inLeft : i < cs.length
    · rw [left i inLeft, List.getElem_append_left inLeft]
    · have block := right (i - cs.length) (by simp at hi; omega)
      rw [List.getElem_append_right (by omega)]
      rwa [show step + cs.length + (i - cs.length) = step + i by omega] at block

theorem HoldsUnits.tail {step : Nat} {c : Command} {cs : List Command}
    (h : w.HoldsUnits start first step (c :: cs)) : w.HoldsUnits start first (step + 1) cs := by
  rw [← List.singleton_append, holdsUnits_append] at h
  exact h.2

theorem HoldsUnits.congr {step : Nat} {cs : List Command} {R : Set Site}
    (h : w.HoldsUnits start first step cs) (inside : ∀ i < cs.length, start.shift (step + i) ∈ R)
    (kept : ∀ p ∈ R, u.blocks p = w.blocks p) : u.HoldsUnits start first step cs := by
  intro i hi
  rw [kept _ (inside i hi), h i hi]

theorem runUnits_add (m n step : Nat) (w : World) :
    runUnits start (m + n) step w =
      (runUnits start m step w).bind (runUnits start n (step + m)) := by
  induction m generalizing step w with
  | zero => simp [runUnits]
  | succ m ih =>
    rw [show m + 1 + n = (m + n) + 1 by omega, runUnits, runUnits]
    cases w.commandAt? start (start.shift step) with
    | none => rfl
    | some c => simp [ih, show step + 1 + m = step + (m + 1) by omega]

theorem runUnits_placeholders {n step : Nat}
    (h : w.HoldsUnits start first step (List.replicate n .placeholder)) :
    runUnits start n step w = some w := by
  induction n generalizing step with
  | zero => rfl
  | succ n ih =>
    rw [List.replicate_succ] at h
    rw [runUnits, h.commandAt?]
    simpa using ih h.tail

theorem runFrom_of_runUnits {n limit step : Nat} {w' : World}
    (ran : runUnits start n step w = some w')
    (stops : w'.commandAt? start (start.shift (step + n)) = none) (enough : n < limit) :
    runFrom start limit (start.shift step) w = some w' := by
  induction n generalizing limit step w with
  | zero =>
    obtain ⟨limit, rfl⟩ : ∃ l, limit = l + 1 := ⟨limit - 1, by omega⟩
    cases ran
    simp only [Nat.add_zero] at stops
    simp [runFrom, stops]
  | succ n ih =>
    obtain ⟨limit, rfl⟩ : ∃ l, limit = l + 1 := ⟨limit - 1, by omega⟩
    rw [runUnits] at ran
    obtain ⟨c, here, ran⟩ := Option.bind_eq_some_iff.1 ran
    rw [runFrom, here]
    rw [show step + (n + 1) = step + 1 + n by omega] at stops
    rw [Site.shift_shift]
    exact ih ran stops (Nat.lt_of_succ_lt_succ enough)

/-- A chain whose commands leave its own row alone runs from its first command to its last. -/
theorem runUnits_of_kept {cs : List Command} {step : Nat} (holds : w.HoldsUnits start first step cs)
    (kept : ∀ c ∈ cs, ∀ origin u i, (c.after origin u).blocks (start.shift i) = u.blocks (start.shift i)) :
    runUnits start cs.length step w = some (w.runAll (start.shift step) cs) := by
  induction cs generalizing step w with
  | nil => rfl
  | cons c cs ih =>
    have others : (c.after (start.shift step).centre w).HoldsUnits start first (step + 1) cs :=
      fun i less => (kept c List.mem_cons_self _ w _).trans (holds.tail i less)
    rw [List.length_cons, runUnits, holds.commandAt?, Option.bind_some,
      ih others fun d mem => kept d (List.mem_cons_of_mem c mem), runAll_cons, Site.shift_shift]

theorem blocks_runAll_of_kept {cs : List Command} {R : Set Site}
    (kept : ∀ c ∈ cs, ∀ origin u, ∀ q ∈ R, (c.after origin u).blocks q = u.blocks q) (p : Site) :
    ∀ q ∈ R, (w.runAll p cs).blocks q = w.blocks q := by
  induction cs generalizing p w with
  | nil => exact fun _ _ => rfl
  | cons c cs ih =>
    intro q mem
    rw [runAll_cons, ih (fun d inside => kept d (List.mem_cons_of_mem c inside)) _ q mem,
      kept c List.mem_cons_self _ w q mem]

end World

end BlockComputer
