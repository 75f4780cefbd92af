import BlockComputer.Proofs.Emission.Copies

/-!
Widths of slices.

A slice is accepted exactly with a bit at least and none above the 31 bits below the sign. Every other slice is
refused with its width before anything is emitted, but only where the width can be counted in 32 bits: the check
counts it, and a greater one is a crash.
-/

namespace BlockComputer

namespace Computation

variable {v : Variable} {skip length : UInt32} {last : Bool}

theorem refusal?_slice_of_valid (pos : length ≠ 0) (top : skip.toNat + length.toNat ≤ 31) :
    (slice skip length last).refusal? v = none := by
  have counted : ¬ Nat.pow 2 32 ≤ skip.toNat + length.toNat := Nat.not_le.2 (top.trans_lt (by decide))
  have valid : ¬ (length = 0 ∨ 31 < skip.toNat + length.toNat) :=
    fun refused => refused.elim pos (Nat.not_lt.2 top)
  simp only [refusal?, if_neg counted, if_neg valid]

theorem refusal?_slice_eq_none_iff :
    (slice skip length last).refusal? v = none ↔ length ≠ 0 ∧ skip.toNat + length.toNat ≤ 31 :=
  ⟨slice_bounds, fun valid => refusal?_slice_of_valid valid.1 valid.2⟩

theorem refusal?_slice_of_invalid (invalid : ¬ (length ≠ 0 ∧ skip.toNat + length.toNat ≤ 31))
    (counted : skip.toNat + length.toNat < 2 ^ 32) : (slice skip length last).refusal? v =
      some (.error (.invalidWidth (skip.toNat + length.toNat))) := by
  have refused : length = 0 ∨ 31 < skip.toNat + length.toNat := by
    by_contra valid
    exact invalid (not_or.1 valid |>.imp id Nat.le_of_not_lt)
  have below : ¬ Nat.pow 2 32 ≤ skip.toNat + length.toNat := Nat.not_le.2 counted
  simp only [refusal?, if_neg below, if_pos refused]

theorem refusal?_slice_of_wide (wide : 2 ^ 32 ≤ skip.toNat + length.toNat) :
    (slice skip length last).refusal? v = some .crash := by
  have beyond : Nat.pow 2 32 ≤ skip.toNat + length.toNat := wide
  simp only [refusal?, if_pos beyond]

end Computation

theorem Computation.succeeds_iff (form : Computation) (v : Variable) {s : Session} (opened : s.scopes ≠ []) :
    ((∃ t, perform (form.inPlace v) s = (.ok (), t)) ↔ form.refusal? v = none) ∧
      ((∃ copy t, perform (form.onCopy v) s = (.ok copy, t)) ↔ form.refusal? v = none) := by
  cases refused : form.refusal? v with
  | none =>
    exact ⟨iff_of_true ⟨_, (Computation.emits refused).gives opened |>.performed⟩ rfl,
      iff_of_true ⟨_, _, (gives_onCopy refused opened).performed⟩ rfl⟩
  | some e =>
    have onCopy : form.refusal? s.spare ≠ none := fun accepted =>
      Option.some_ne_none e (refused.symm.trans ((form.refusal?_eq_none_iff s.spare v).1 accepted))
    obtain ⟨e', refused'⟩ := Option.ne_none_iff_exists'.1 onCopy
    refine ⟨iff_of_false ?_ (Option.some_ne_none e), iff_of_false ?_ (Option.some_ne_none e)⟩
    · rintro ⟨t, ran⟩
      rw [Computation.perform_refused refused] at ran
      cases ran
    · rintro ⟨copy, t, ran⟩
      rw [perform_onCopy_of_refused opened refused'] at ran
      cases ran

/-- In a session with an open scope a slice, in place or on a copy, succeeds exactly with a bit at least and none
above the 31 bits below the sign. Every other one whose width is a number of 32 bits is refused with that width;
then a slice in place has done nothing, and one on a copy only the copying, which materializes no constant. A
greater width is a crash, with nothing done either. -/
theorem slices_are_checked (v : Variable) (skip length : UInt32) (last : Bool) {s : Session}
    (opened : s.scopes ≠ []) : let width := skip.toNat + length.toNat
    ((∃ t, perform (v.bitslice skip length last) s = (.ok (), t)) ↔ 1 ≤ length.toNat ∧ width ≤ 31) ∧
    ((∃ copy t, perform (v.sliced skip length last) s = (.ok copy, t)) ↔ 1 ≤ length.toNat ∧ width ≤ 31) ∧
    (¬ (1 ≤ length.toNat ∧ width ≤ 31) →
      (s.copied v).constants = s.constants ∧ (s.copied v).init = s.init ∧
      (width < 2 ^ 32 →
        perform (v.bitslice skip length last) s = (.error (.error (.invalidWidth width)), s) ∧
        perform (v.sliced skip length last) s = (.error (.error (.invalidWidth width)), s.copied v)) ∧
      (2 ^ 32 ≤ width →
        perform (v.bitslice skip length last) s = (.error .crash, s) ∧
        perform (v.sliced skip length last) s = (.error .crash, s.copied v))) := by
  intro width
  let form : Computation := .slice skip length last
  obtain ⟨inPlace, onCopy⟩ := form.succeeds_iff v opened
  have positive : 1 ≤ length.toNat ↔ length ≠ 0 :=
    Nat.one_le_iff_ne_zero.trans (@UInt32.toNat_inj length 0).not
  rw [Computation.refusal?_slice_eq_none_iff, ← positive] at inPlace onCopy
  refine ⟨inPlace, onCopy, fun invalid => ?_⟩
  rw [positive] at invalid
  refine ⟨Session.constants_append _ _, Session.init_append _ _, fun counted => ?_, fun wide => ?_⟩
  · exact ⟨form.perform_refused (Computation.refusal?_slice_of_invalid invalid counted) s,
      perform_onCopy_of_refused opened (Computation.refusal?_slice_of_invalid invalid counted)⟩
  · exact ⟨form.perform_refused (Computation.refusal?_slice_of_wide wide) s,
      perform_onCopy_of_refused opened (Computation.refusal?_slice_of_wide wide)⟩

/-- Two bits from bit 30 on are one too many. -/
theorem slices_are_checked_one_above :
    let s := (perform (numberClient 5) {}).2
    s.scopes ≠ [] ∧ perform (Variable.bitslice ⟨"v"⟩ 30 2 false) s = (.error (.error (.invalidWidth 32)), s) ∧
      perform (Variable.sliced ⟨"v"⟩ 30 2 false) s = (.error (.error (.invalidWidth 32)), s.copied ⟨"v"⟩) := by
  intro s
  have opened : s.scopes ≠ [] := by decide
  obtain ⟨-, -, refuses⟩ := slices_are_checked ⟨"v"⟩ 30 2 false opened
  exact ⟨opened, (refuses (by decide)).2.2.1 (by decide)⟩

/-- The slice of one bit from the greatest number of 32 bits on is a crash, and no error. -/
theorem slice_crashes_uncounted :
    let s := (perform (numberClient 5) {}).2
    s.scopes ≠ [] ∧ perform (Variable.bitslice ⟨"v"⟩ 4294967295 1 false) s = (.error .crash, s) ∧
      (perform (Variable.sliced ⟨"v"⟩ 4294967295 1 false) s).1 = .error .crash := by
  intro s
  exact ⟨by decide, rfl, rfl⟩

end BlockComputer
