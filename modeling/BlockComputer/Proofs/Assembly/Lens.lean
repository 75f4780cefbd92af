import BlockComputer.Proofs.Assembly.Acceptance

/-!
Fields as lenses.

Bit by bit a write takes the new number within the field and the old cell outside of it. So a value that is
written reads back, writing what was read changes nothing, of two writes to a field the second one counts,
and writes to fields that share no bit can be exchanged.
-/

namespace BlockComputer.Assembly

namespace Field

def HasBit (f : Field) (j : Nat) : Prop :=
  f.skip ≤ j ∧ j < f.skip + f.width

instance (f : Field) (j : Nat) : Decidable (f.HasBit j) :=
  inferInstanceAs (Decidable (_ ∧ _))

variable {f g : Field} {cell m n : Nat} {word word' : UInt16} {u v : Int}

theorem IsApart.not_hasBit (apart : f.IsApart g) {j : Nat} (inside : f.HasBit j) : ¬ g.HasBit j := by
  rintro ⟨from', below'⟩
  obtain ⟨start, below⟩ := inside
  rcases apart with left | right <;> omega

theorem read_lt (f : Field) (cell : Nat) : f.read cell < 2 ^ f.width :=
  Nat.mod_lt _ (Nat.two_pow_pos _)

theorem testBit_write (less : n < 2 ^ f.width) (j : Nat) :
    (f.write cell n).testBit j = if f.HasBit j then n.testBit (j - f.skip) else cell.testBit j := by
  rcases Nat.lt_or_ge j f.skip with low | from'
  · have outside : ¬ f.HasBit j := fun inside => Nat.not_le_of_lt low inside.1
    have same := congrArg (Nat.testBit · j) (write_mod_skip f cell n)
    simpa only [Nat.testBit_mod_two_pow, low, decide_true, Bool.true_and, if_neg outside] using same
  · obtain ⟨i, rfl⟩ := Nat.exists_eq_add_of_le' from'
    rw [← Nat.testBit_div_two_pow, write_div_skip, Nat.mul_comm, Nat.testBit_two_pow_mul_add _ less,
      Nat.testBit_div_two_pow, Nat.add_sub_cancel]
    by_cases low : i < f.width
    · rw [if_pos low, if_pos ⟨from', by omega⟩]
    · have outside : ¬ f.HasBit (i + f.skip) := fun inside => low (by have := inside.2; omega)
      have place : i - f.width + (f.skip + f.width) = i + f.skip := by omega
      rw [if_neg low, if_neg outside, place]

theorem write_read (f : Field) (cell : Nat) : f.write cell (f.read cell) = cell := by
  refine Nat.eq_of_testBit_eq fun j => ?_
  rw [testBit_write (f.read_lt cell)]
  split
  · next inside =>
    obtain ⟨from', below⟩ := inside
    rw [read_eq, Nat.testBit_mod_two_pow, Nat.testBit_div_two_pow, Nat.sub_add_cancel from',
      decide_eq_true (by omega), Bool.true_and]
  · rfl

theorem write_write (hm : m < 2 ^ f.width) (hn : n < 2 ^ f.width) :
    f.write (f.write cell m) n = f.write cell n := by
  refine Nat.eq_of_testBit_eq fun j => ?_
  rw [testBit_write hn, testBit_write hn, testBit_write hm]
  split <;> rfl

theorem write_comm (apart : f.IsApart g) (hm : m < 2 ^ f.width) (hn : n < 2 ^ g.width) :
    g.write (f.write cell m) n = f.write (g.write cell n) m := by
  refine Nat.eq_of_testBit_eq fun j => ?_
  rw [testBit_write hn, testBit_write hm, testBit_write hm, testBit_write hn]
  by_cases inside : f.HasBit j
  · rw [if_neg (apart.not_hasBit inside), if_pos inside, if_pos inside]
  · rw [if_neg inside, if_neg inside]

theorem takes_natCast (less : n < 2 ^ f.width) : f.Takes n := by
  have small : (n : Int) < 2 ^ f.width := by exact_mod_cast less
  have low : (0 : Int) < 2 ^ (f.width - 1) := Int.pow_pos (by decide)
  exact ⟨by omega, small⟩

theorem raw_natCast (less : n < 2 ^ f.width) : f.raw n = n := by
  have small : (n : Int) < 2 ^ f.width := by exact_mod_cast less
  rw [raw, Int.emod_eq_of_lt (Int.natCast_nonneg n) small, Int.toNat_natCast]

theorem isInCell_iff : f.isInCell ↔ 1 ≤ f.width ∧ f.skip + f.width ≤ 16 := by
  rw [isInCell, Bool.and_eq_true, decide_eq_true_eq, decide_eq_true_eq, Nat.succ_le_iff]

variable (inCell : f.isInCell)

include inCell

theorem set_eq_ok_iff : f.set word v = .ok word' ↔
    f.Takes v ∧ word'.toNat = f.write word.toNat (f.raw v) := by
  constructor
  · intro set
    exact ⟨(admits_iff (isInCell_iff.1 inCell).1).1 (admits_of_set set), toNat_of_set set⟩
  · rintro ⟨takes, written⟩
    rcases f.set_cases inCell word v with ⟨-, word'', set⟩ | ⟨not, -⟩
    · rw [set, UInt16.toNat_inj.1 (written.trans (toNat_of_set set).symm)]
    · exact absurd takes not

theorem exists_set_iff : (∃ word', f.set word v = .ok word') ↔ f.Takes v := by
  constructor
  · rintro ⟨word', set⟩
    exact ((set_eq_ok_iff inCell).1 set).1
  · intro takes
    rcases f.set_cases inCell word v with ⟨-, set⟩ | ⟨not, -⟩
    · exact set
    · exact absurd takes not

theorem set_eq_error (not : ¬ f.Takes v) : f.set word v = .error (.error (.fieldOverflow v f.width)) := by
  rcases f.set_cases inCell word v with ⟨takes, -⟩ | ⟨-, failed⟩
  · exact absurd takes not
  · exact failed

theorem set_set (set : f.set word v = .ok word') (u : Int) : f.set word' u = f.set word u := by
  by_cases takes : f.Takes u
  · have accepted : ∃ word'', f.set word' u = .ok word'' := (exists_set_iff inCell).2 takes
    obtain ⟨word'', second⟩ := accepted
    have written := ((set_eq_ok_iff inCell).1 second).2
    rw [toNat_of_set set, write_write (f.raw_lt v) (f.raw_lt u)] at written
    rw [second, (set_eq_ok_iff inCell).2 ⟨takes, written⟩]
  · rw [set_eq_error inCell takes, set_eq_error inCell takes]

theorem bind_set_eq_ok_iff (inCell' : g.isInCell) :
    (do g.set (← f.set word u) v) = .ok word' ↔
      f.Takes u ∧ g.Takes v ∧ word'.toNat = g.write (f.write word.toNat (f.raw u)) (g.raw v) := by
  rcases f.set_cases inCell word u with ⟨takes, next, set⟩ | ⟨not, failed⟩
  · simp only [set, takes, true_and, bind, Except.bind]
    rw [set_eq_ok_iff inCell', toNat_of_set set]
  · simp only [failed, not, false_and, bind, Except.bind, reduceCtorEq]

end Field

/-- A field with bits of a cell is set to exactly the values between the least signed and the greatest
unsigned number of its width, and says so about the others. Then it reads as the value modulo its size, and
the bits beside it are as before; setting what was read changes nothing, and a second value takes the place
of the first one. Fields that share no bit can be set in either order. -/
theorem fields_are_lenses {f : Field} (bits : 1 ≤ f.width) (inCell : f.skip + f.width ≤ 16)
    (word : UInt16) :
    (∀ v : Int,
      ((∃ word', f.set word v = .ok word') ↔ -2 ^ (f.width - 1) ≤ v ∧ v < 2 ^ f.width) ∧
      (¬ (-2 ^ (f.width - 1) ≤ v ∧ v < 2 ^ f.width) →
        f.set word v = .error (.error (.fieldOverflow v f.width))) ∧
      ∀ word', f.set word v = .ok word' →
        (∃ held, f.get word' = .ok held ∧ (held.toNat : Int) = v % 2 ^ f.width) ∧
        (∀ j, ¬ f.HasBit j → word'.toNat.testBit j = word.toNat.testBit j) ∧
        ∀ u : Int, f.set word' u = f.set word u) ∧
    (∃ held, f.get word = .ok held ∧ f.set word held.toNat = .ok word) ∧
    ∀ g : Field, 1 ≤ g.width → g.skip + g.width ≤ 16 → f.IsApart g → ∀ (u v : Int) (word' : UInt16),
      (do g.set (← f.set word u) v) = .ok word' ↔ (do f.set (← g.set word v) u) = .ok word' := by
  have inCell := Field.isInCell_iff.2 ⟨bits, inCell⟩
  refine ⟨fun v => ⟨Field.exists_set_iff inCell, Field.set_eq_error inCell, fun word' set => ⟨?_, ?_, ?_⟩⟩,
    ?_, fun g bits' inCell' apart u v word' => ?_⟩
  · obtain ⟨held, got, read⟩ := f.exists_get inCell word'
    refine ⟨held, got, ?_⟩
    rw [read, Field.toNat_of_set set, Field.read_write_self (f.raw_lt v), Field.natCast_raw]
  · intro j outside
    rw [Field.toNat_of_set set, Field.testBit_write (f.raw_lt v), if_neg outside]
  · exact Field.set_set inCell set
  · obtain ⟨held, got, read⟩ := f.exists_get inCell word
    refine ⟨held, got, (Field.set_eq_ok_iff inCell).2 ⟨Field.takes_natCast (read ▸ f.read_lt _), ?_⟩⟩
    rw [read, Field.raw_natCast (f.read_lt _), Field.write_read]
  · have inCell' := Field.isInCell_iff.2 ⟨bits', inCell'⟩
    rw [Field.bind_set_eq_ok_iff inCell inCell', Field.bind_set_eq_ok_iff inCell' inCell,
      Field.write_comm apart (f.raw_lt u) (g.raw_lt v), and_left_comm]

theorem fields_are_lenses_highest_bit :
    Field.set ⟨1, 15⟩ 0x1234 (-1) = .ok 0x9234 ∧
      Field.set ⟨1, 15⟩ 0x1234 (-2) = .error (.error (.fieldOverflow (-2) 1)) ∧
      (∃ held, Field.get ⟨1, 15⟩ 0x9234 = .ok held ∧ (held.toNat : Int) = -1 % 2 ^ 1) ∧
      (UInt16.toNat 0x9234).testBit 4 = (UInt16.toNat 0x1234).testBit 4 ∧
      Field.set ⟨1, 15⟩ 0x9234 0 = Field.set ⟨1, 15⟩ 0x1234 0 ∧
      (∃ held, Field.get ⟨1, 15⟩ 0x1234 = .ok held ∧ Field.set ⟨1, 15⟩ 0x1234 held.toNat = .ok 0x1234) ∧
      (do Field.set ⟨15, 0⟩ (← Field.set ⟨1, 15⟩ 0x1234 1) (-16384)) = .ok 0xC000 := by
  obtain ⟨values, held, others⟩ :=
    fields_are_lenses (f := ⟨1, 15⟩) (by decide) (by decide) 0x1234
  have set : Field.set ⟨1, 15⟩ 0x1234 (-1) = .ok 0x9234 := by decide
  obtain ⟨read, beside, again⟩ := (values (-1)).2.2 _ set
  exact ⟨set, (values (-2)).2.1 (by decide), read, beside 4 (by decide), again 0, held,
    (others ⟨15, 0⟩ (by decide) (by decide) (by decide) 1 (-16384) 0xC000).2 (by decide)⟩

end BlockComputer.Assembly
