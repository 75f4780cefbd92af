import BlockComputer.Assembly.Program
import BlockComputer.Proofs.Emission.Basic

/-!
What a word holds.

A field that is written reads back, and a write leaves the fields beside it and all bits above it
alone. So a word has the opcode of its encoding at the top, and every operand in its own field, modulo
the size of the field.
-/

namespace BlockComputer.Assembly

namespace Field

def raw (f : Field) (value : Int) : Nat :=
  (value % (2 : Int) ^ f.width).toNat

variable {f g : Field} {cell n : Nat} {value : Int}

theorem raw_lt (f : Field) (value : Int) : f.raw value < 2 ^ f.width := by
  have pos : (0 : Int) < (2 : Int) ^ f.width := Int.pow_pos (by decide)
  have less : value % (2 : Int) ^ f.width < ((2 ^ f.width : Nat) : Int) := by
    rw [Int.natCast_pow]
    exact Int.emod_lt_of_pos value pos
  exact (Int.toNat_lt (Int.emod_nonneg value (Int.ne_of_gt pos))).2 less

theorem natCast_raw (f : Field) (value : Int) : (f.raw value : Int) = value % 2 ^ f.width :=
  Int.toNat_of_nonneg (Int.emod_nonneg value (Int.ne_of_gt (Int.pow_pos (by decide))))

theorem read_eq (f : Field) (cell : Nat) : f.read cell = cell / 2 ^ f.skip % 2 ^ f.width := rfl

theorem write_eq (f : Field) (cell n : Nat) :
    f.write cell n =
      (cell / 2 ^ (f.skip + f.width) * 2 ^ f.width + n) * 2 ^ f.skip + cell % 2 ^ f.skip := by
  have sum : f.write cell n = cell / 2 ^ (f.skip + f.width) * 2 ^ (f.skip + f.width)
      + n * 2 ^ f.skip + cell % 2 ^ f.skip := rfl
  rw [sum, Nat.pow_add, Nat.add_mul, Nat.mul_assoc, Nat.mul_comm (2 ^ f.width)]

theorem write_div_skip (f : Field) (cell n : Nat) :
    f.write cell n / 2 ^ f.skip = cell / 2 ^ (f.skip + f.width) * 2 ^ f.width + n := by
  have rest := Nat.mod_lt cell (Nat.two_pow_pos f.skip)
  rw [write_eq, Nat.mul_comm, Nat.mul_add_div (Nat.two_pow_pos f.skip), Nat.div_eq_of_lt rest,
    Nat.add_zero]

theorem write_mod_skip (f : Field) (cell n : Nat) :
    f.write cell n % 2 ^ f.skip = cell % 2 ^ f.skip := by
  rw [write_eq, Nat.mul_comm, Nat.mul_add_mod, Nat.mod_mod]

theorem read_write_self (less : n < 2 ^ f.width) : f.read (f.write cell n) = n := by
  rw [read_eq, write_div_skip, Nat.mul_comm, Nat.mul_add_mod, Nat.mod_eq_of_lt less]

theorem write_div_of_le (less : n < 2 ^ f.width) {top : Nat} (above : f.skip + f.width ≤ top) :
    f.write cell n / 2 ^ top = cell / 2 ^ top := by
  have upper : f.write cell n / 2 ^ (f.skip + f.width) = cell / 2 ^ (f.skip + f.width) := by
    rw [Nat.pow_add, ← Nat.div_div_eq_div_mul, write_div_skip, Nat.mul_comm,
      Nat.mul_add_div (Nat.two_pow_pos f.width), Nat.div_eq_of_lt less, Nat.add_zero, Nat.pow_add]
  rw [← Nat.add_sub_cancel' above, Nat.pow_add, ← Nat.div_div_eq_div_mul, upper,
    Nat.div_div_eq_div_mul]

theorem write_mod_of_le {bottom : Nat} (below : bottom ≤ f.skip) :
    f.write cell n % 2 ^ bottom = cell % 2 ^ bottom := by
  have divides : 2 ^ bottom ∣ 2 ^ f.skip := Nat.pow_dvd_pow 2 below
  rw [← Nat.mod_mod_of_dvd _ divides, write_mod_skip, Nat.mod_mod_of_dvd _ divides]

def IsApart (f g : Field) : Prop :=
  f.skip + f.width ≤ g.skip ∨ g.skip + g.width ≤ f.skip

instance (f g : Field) : Decidable (f.IsApart g) :=
  inferInstanceAs (Decidable (_ ∨ _))

theorem read_eq_mod_div (f : Field) (cell : Nat) :
    f.read cell = cell % 2 ^ (f.skip + f.width) / 2 ^ f.skip := by
  rw [read_eq, Nat.pow_add, Nat.mod_mul_right_div_self]

theorem read_write_of_isApart (less : n < 2 ^ f.width) (apart : f.IsApart g) :
    g.read (f.write cell n) = g.read cell := by
  rcases apart with below | above
  · rw [read_eq, write_div_of_le less below, read_eq]
  · rw [read_eq_mod_div, write_mod_of_le above, read_eq_mod_div]

theorem write_lt {bits : Nat} (inCell : f.skip + f.width ≤ bits) (hc : cell < 2 ^ bits)
    (hr : n < 2 ^ f.width) : f.write cell n < 2 ^ bits := by
  rw [← Nat.div_eq_zero_iff_lt (Nat.two_pow_pos bits), write_div_of_le hr inCell]
  exact Nat.div_eq_of_lt hc

theorem toNat_of_set {word word' : UInt16} (h : f.set word value = .ok word') :
    word'.toNat = f.write word.toNat (f.raw value) := by
  unfold set at h
  split at h
  · cases h
  · split at h
    · cases h
    · split at h
      · next inCell =>
        cases h
        have bits : f.skip + f.width ≤ 16 := by
          simp only [isInCell, Bool.and_eq_true, decide_eq_true_eq] at inCell
          exact inCell.2
        exact Nat.mod_eq_of_lt (write_lt bits word.toNat_lt (f.raw_lt value))
      · cases h

theorem exists_get (inCell : f.isInCell) (word : UInt16) :
    ∃ held, f.get word = .ok held ∧ held.toNat = f.read word.toNat := by
  have less : f.read word.toNat < 2 ^ 16 :=
    Nat.lt_of_le_of_lt (Nat.le_trans (Nat.mod_le _ _) (Nat.div_le_self _ _)) word.toNat_lt
  exact ⟨_, if_pos inCell, Nat.mod_eq_of_lt less⟩

theorem admits_of_set {word word' : UInt16} (h : f.set word value = .ok word') : f.admits value := by
  unfold set at h
  split at h
  · cases h
  · split at h
    · cases h
    · next fits =>
      exact Decidable.not_not.1 (not_or.1 fits).2

end Field

/-- The number of a word with operands in its fields. -/
def fill (fields : List Field) (values : List Int) (cell : Nat) : Nat :=
  (fields.zip values).foldl (fun cell slot => slot.1.write cell (slot.1.raw slot.2)) cell

section fill

variable {fields : List Field} {values : List Int} {cell : Nat}

theorem fill_cons (f : Field) (fields : List Field) (value : Int) (values : List Int) (cell : Nat) :
    fill (f :: fields) (value :: values) cell = fill fields values (f.write cell (f.raw value)) :=
  rfl

theorem fill_div_of_le {top : Nat} (above : ∀ f ∈ fields, f.skip + f.width ≤ top) :
    fill fields values cell / 2 ^ top = cell / 2 ^ top := by
  induction fields generalizing values cell with
  | nil => rfl
  | cons f fields ih =>
    cases values with
    | nil => rfl
    | cons value values =>
      rw [fill_cons, ih fun g mem => above g (List.mem_cons_of_mem f mem),
        Field.write_div_of_le (f.raw_lt value) (above f List.mem_cons_self)]

theorem read_fill_of_isApart {g : Field} (apart : ∀ f ∈ fields, f.IsApart g) :
    g.read (fill fields values cell) = g.read cell := by
  induction fields generalizing values cell with
  | nil => rfl
  | cons f fields ih =>
    cases values with
    | nil => rfl
    | cons value values =>
      rw [fill_cons, ih fun g mem => apart g (List.mem_cons_of_mem f mem),
        Field.read_write_of_isApart (f.raw_lt value) (apart f List.mem_cons_self)]

theorem read_fill (apart : fields.Pairwise fun f g => g.IsApart f) {slot : Field × Int}
    (mem : slot ∈ fields.zip values) :
    slot.1.read (fill fields values cell) = slot.1.raw slot.2 := by
  induction fields generalizing values cell with
  | nil => cases mem
  | cons f fields ih =>
    rw [List.pairwise_cons] at apart
    cases values with
    | nil => cases mem
    | cons value values =>
      rw [List.zip_cons_cons, List.mem_cons] at mem
      rw [fill_cons]
      rcases mem with rfl | mem
      · rw [read_fill_of_isApart apart.1, Field.read_write_self (f.raw_lt value)]
      · exact ih apart.2 mem

end fill

namespace Encoding

def slots (e : Encoding) : List Field :=
  e.fields.map Prod.snd

def freeBits (e : Encoding) : Nat :=
  wordBits - e.opcodeWidth

structure IsSound (e : Encoding) : Prop where
  opcode : e.opcode.toNat < 2 ^ e.opcodeWidth
  width : e.opcodeWidth ≤ wordBits
  below : ∀ f ∈ e.slots, f.skip + f.width ≤ e.freeBits
  apart : e.slots.Pairwise fun f g => g.IsApart f

theorem isSound_of_mem {e : Encoding} (mem : e ∈ instructionSet) : e.IsSound := by
  have checked : ∀ e ∈ instructionSet, e.opcode.toNat < 2 ^ e.opcodeWidth ∧
      e.opcodeWidth ≤ wordBits ∧ (∀ f ∈ e.slots, f.skip + f.width ≤ e.freeBits) ∧
      e.slots.Pairwise fun f g => g.IsApart f := by
    decide
  obtain ⟨opcode, width, below, apart⟩ := checked e mem
  exact ⟨opcode, width, below, apart⟩

theorem toNat_of_encode {e : Encoding} {values : List Int} {word : UInt16}
    (h : e.encode values = .ok word) :
    word.toNat = fill e.slots values (UInt16.ofNat (e.opcode.toNat * 2 ^ e.freeBits)).toNat := by
  unfold encode at h
  split at h
  · cases h
  · unfold slots freeBits
    generalize UInt16.ofNat (e.opcode.toNat * 2 ^ (wordBits - e.opcodeWidth)) = start at h ⊢
    generalize e.fields = fields at h ⊢
    induction fields generalizing values start with
    | nil =>
      cases h
      rfl
    | cons slot fields ih =>
      cases values with
      | nil =>
        cases h
        rfl
      | cons value values =>
        rw [List.zip_cons_cons, List.foldlM_cons] at h
        cases first : slot.2.set start value with
        | error e => simp [first, bind, Except.bind] at h
        | ok next =>
          simp only [first, bind, Except.bind] at h
          rw [ih next h, Field.toNat_of_set first]
          rfl

/-- A word has its opcode at the top and each operand in its own field. -/
structure IsWord (e : Encoding) (values : List Int) (n : Nat) : Prop where
  top : n / 2 ^ e.freeBits = e.opcode.toNat
  small : n < 2 ^ wordBits
  slots : ∀ slot ∈ e.slots.zip values, slot.1.read n = slot.1.raw slot.2

theorem isWord_of_encode {e : Encoding} (mem : e ∈ instructionSet) {values : List Int}
    {word : UInt16} (h : e.encode values = .ok word) : e.IsWord values word.toNat := by
  have sound := isSound_of_mem mem
  have size : 2 ^ wordBits = 2 ^ e.opcodeWidth * 2 ^ e.freeBits := by
    rw [← Nat.pow_add, freeBits, Nat.add_sub_cancel' sound.width]
  have inWord : e.opcode.toNat * 2 ^ e.freeBits < 2 ^ wordBits := by
    rw [size]
    exact Nat.mul_lt_mul_of_pos_right sound.opcode (Nat.two_pow_pos _)
  have start : (UInt16.ofNat (e.opcode.toNat * 2 ^ e.freeBits)).toNat =
      e.opcode.toNat * 2 ^ e.freeBits :=
    Nat.mod_eq_of_lt (Nat.lt_trans inWord (by decide))
  have top : word.toNat / 2 ^ e.freeBits = e.opcode.toNat := by
    rw [toNat_of_encode h, fill_div_of_le sound.below, start,
      Nat.mul_div_cancel _ (Nat.two_pow_pos _)]
  refine ⟨top, ?_, fun slot mem => ?_⟩
  · rw [size, ← Nat.div_lt_iff_lt_mul (Nat.two_pow_pos _), top]
    exact sound.opcode
  · rw [toNat_of_encode h]
    exact read_fill sound.apart mem

end Encoding

end BlockComputer.Assembly
