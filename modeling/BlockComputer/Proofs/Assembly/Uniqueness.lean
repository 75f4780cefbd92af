import BlockComputer.Proofs.Assembly.Acceptance

/-!
Words and entries of the instruction set belong together one to one.

The opcodes are a complete prefix code: every number of twelve bits starts with the opcode of exactly one
entry. The fields of an entry tile the bits below its opcode. So a word tells its entry and, modulo the
sizes of their fields, its operands, and every number of twelve bits is the word of some line.
-/

namespace BlockComputer.Assembly

/-- The fields lie next to each other from bit `top` down to the lowest one. -/
def Field.tile : Nat → List Field → Bool
  | top, [] => top = 0
  | top, f :: fields => f.skip + f.width = top && tile f.skip fields

/-- Numbers with the same fields have the same bits wherever the fields lie. -/
theorem Field.mod_eq_of_tile {fields : List Field} {top n n' : Nat} (tiled : tile top fields)
    (same : ∀ f ∈ fields, f.read n = f.read n') : n % 2 ^ top = n' % 2 ^ top := by
  induction fields generalizing top with
  | nil => rw [of_decide_eq_true tiled, Nat.pow_zero, Nat.mod_one, Nat.mod_one]
  | cons f fields ih =>
    rw [tile, Bool.and_eq_true, decide_eq_true_eq] at tiled
    obtain ⟨rfl, below⟩ := tiled
    obtain ⟨first, others⟩ := List.forall_mem_cons.1 same
    rw [read_eq, read_eq] at first
    rw [Nat.pow_add, Nat.mod_mul, Nat.mod_mul, first, ih below others]

namespace Encoding

def Leads (e : Encoding) (n : Nat) : Prop :=
  n / 2 ^ e.freeBits = e.opcode.toNat

instance (e : Encoding) (n : Nat) : Decidable (e.Leads n) :=
  inferInstanceAs (Decidable (_ = _))

def first (e : Encoding) : Nat :=
  e.opcode.toNat * 2 ^ e.freeBits

/-- The number behind the last one that starts with the opcode of the entry. -/
def behind (e : Encoding) : Nat :=
  (e.opcode.toNat + 1) * 2 ^ e.freeBits

variable {e e' : Encoding} {n n' : Nat}

theorem leads_iff : e.Leads n ↔ e.first ≤ n ∧ n < e.behind := by
  rw [Leads, Nat.div_eq_iff (Nat.two_pow_pos _), first, behind, Nat.add_mul, Nat.one_mul]
  have pos := Nat.two_pow_pos e.freeBits
  omega

theorem leads_div {bits : Nat} (le : bits ≤ e.freeBits) :
    e.Leads (n / 2 ^ bits * 2 ^ bits) ↔ e.Leads n := by
  rw [Leads, Leads, ← Nat.add_sub_cancel' le, Nat.pow_add, ← Nat.div_div_eq_div_mul,
    ← Nat.div_div_eq_div_mul, Nat.mul_div_cancel _ (Nat.two_pow_pos bits)]

theorem Leads.unique (mem : e ∈ instructionSet) (mem' : e' ∈ instructionSet) (h : e.Leads n)
    (h' : e'.Leads n) : e = e' := by
  have prefixFree : ∀ e ∈ instructionSet, ∀ e' ∈ instructionSet, e.freeBits ≤ e'.freeBits →
      e'.Leads e.first → e = e' := by
    decide +kernel
  have cut {e e' : Encoding} (le : e.freeBits ≤ e'.freeBits) (h : e.Leads n) (h' : e'.Leads n) :
      e'.Leads e.first := by
    rw [first, ← show n / 2 ^ e.freeBits = e.opcode.toNat from h]
    exact (leads_div le).2 h'
  rcases Nat.le_total e.freeBits e'.freeBits with le | le
  · exact prefixFree e mem e' mem' le (cut le h h')
  · exact (prefixFree e' mem' e mem le (cut le h' h)).symm

theorem exists_leads (less : n < 2 ^ wordBits) : ∃ e ∈ instructionSet, e.Leads n := by
  have joined : ∀ e ∈ instructionSet, e.behind = 2 ^ wordBits ∨
      ∃ e' ∈ instructionSet, e.behind = e'.first := by
    decide +kernel
  have nonempty : ∀ e ∈ instructionSet, e.first < e.behind := by decide
  induction n with
  | zero => decide
  | succ n ih =>
    obtain ⟨e, mem, leads⟩ := ih (Nat.lt_of_succ_lt less)
    obtain ⟨from_, before⟩ := leads_iff.1 leads
    by_cases inside : n + 1 < e.behind
    · exact ⟨e, mem, leads_iff.2 ⟨Nat.le_succ_of_le from_, inside⟩⟩
    · -- the number is the first one of the entry behind
      have atEnd : n + 1 = e.behind := Nat.le_antisymm before (Nat.le_of_not_lt inside)
      rcases joined e mem with last | ⟨e', mem', next⟩
      · exact absurd less (by rw [atEnd, last]; exact Nat.lt_irrefl _)
      · refine ⟨e', mem', leads_iff.2 ⟨?_, ?_⟩⟩
        · rw [atEnd, next]
        · rw [atEnd, next]
          exact nonempty e' mem'

/-- A number is told by its entry and by what it holds in the entry's fields. -/
theorem Leads.eq_of_read_eq (mem : e ∈ instructionSet) (h : e.Leads n) (h' : e.Leads n')
    (same : ∀ f ∈ e.slots, f.read n = f.read n') : n = n' := by
  have tiled : ∀ e ∈ instructionSet, Field.tile e.freeBits e.slots := by decide
  rw [← Nat.div_add_mod n (2 ^ e.freeBits), ← Nat.div_add_mod n' (2 ^ e.freeBits),
    Field.mod_eq_of_tile (tiled e mem) same, show n / 2 ^ e.freeBits = _ from h,
    show n' / 2 ^ e.freeBits = _ from h']

end Encoding

def Uses (line : List Char) (e : Encoding) (operands : List Operand) : Prop :=
  ∃ mnemonic, Reads line mnemonic operands ∧
    (candidates mnemonic).find? (·.accepts (operands.map Operand.kind)) = some e

section Uses

variable {line : List Char} {e e' : Encoding} {operands operands' : List Operand} {word : UInt16}

theorem Uses.mem (h : Uses line e operands) : e ∈ instructionSet := by
  obtain ⟨_, -, found⟩ := h
  exact (find?_candidates_eq_some_iff.1 found).mem

theorem Uses.length_values_eq (h : Uses line e operands) :
    (operands.map Operand.value).length = e.slots.length := by
  obtain ⟨_, -, found⟩ := h
  have kinds := congrArg List.length (find?_candidates_eq_some_iff.1 found).kinds_eq
  rw [Encoding.kinds, List.length_map, List.length_map] at kinds
  rw [Encoding.slots, List.length_map, List.length_map, kinds]

theorem Uses.encodeLine_eq (h : Uses line e operands) :
    encodeLine line = e.encode (operands.map Operand.value) := by
  obtain ⟨mnemonic, reads, found⟩ := h
  rw [reads.encodeLine_eq, assemble_of_isFor (find?_candidates_eq_some_iff.1 found)]

theorem Uses.isWord (h : Uses line e operands) (encoded : encodeLine line = .ok word) :
    e.IsWord (operands.map Operand.value) word.toNat :=
  Encoding.isWord_of_encode h.mem (h.encodeLine_eq.symm.trans encoded)

theorem exists_uses_of_encodeLine (encoded : encodeLine line = .ok word) :
    ∃ e operands, Uses line e operands := by
  obtain ⟨mnemonic, operands, reads, assembled⟩ := encodeLine_eq_ok encoded
  obtain ⟨e, mem, named, kinds, -⟩ := assemble_eq_ok assembled
  exact ⟨e, operands, mnemonic, reads, find?_candidates_eq_some_iff.2 ⟨mem, named, kinds⟩⟩

theorem IsAccepted.uses (h : IsAccepted line e operands) : Uses line e operands := by
  obtain ⟨name, tokens, spaced, good, isFor⟩ := h.reads
  exact ⟨_, reads_of_isSpaced spaced good, find?_candidates_eq_some_iff.2 isFor⟩

end Uses

def Encoding.residues (e : Encoding) (values : List Int) : List Int :=
  (e.slots.zip values).map fun slot => slot.2 % 2 ^ slot.1.width

namespace Encoding.IsWord

variable {e : Encoding} {values : List Int} {n : Nat} {word : UInt16}

theorem get (mem : e ∈ instructionSet) (h : e.IsWord values word.toNat) {slot : Field × Int}
    (inside : slot ∈ e.slots.zip values) :
    ∃ held, slot.1.get word = .ok held ∧ (held.toNat : Int) = slot.2 % 2 ^ slot.1.width := by
  obtain ⟨held, got, read⟩ :=
    slot.1.exists_get (isInCell_of_mem mem slot.1 (List.of_mem_zip inside).1) word
  refine ⟨held, got, ?_⟩
  rw [read, h.slots slot inside, Field.natCast_raw]

theorem residues_eq (h : e.IsWord values n) (length_eq : values.length = e.slots.length) :
    e.residues values = e.slots.map fun f => (f.read n : Int) :=
  calc e.residues values
      = (e.slots.zip values).map fun slot => (slot.1.read n : Int) :=
        List.map_congr_left fun slot inside => by rw [h.slots slot inside, Field.natCast_raw]
    _ = ((e.slots.zip values).map Prod.fst).map fun f => (f.read n : Int) := by
      rw [List.map_map, Function.comp_def]
    _ = e.slots.map fun f => (f.read n : Int) := by rw [List.map_fst_zip length_eq.ge]

end Encoding.IsWord

theorem Uses.unique {line line' : List Char} {word : UInt16} {e e' : Encoding}
    {operands operands' : List Operand} (h : Uses line e operands) (h' : Uses line' e' operands')
    (encoded : encodeLine line = .ok word) (encoded' : encodeLine line' = .ok word) :
    e = e' ∧ e.residues (operands.map Operand.value) = e'.residues (operands'.map Operand.value) := by
  have isWord := h.isWord encoded
  have isWord' := h'.isWord encoded'
  obtain rfl : e = e' := Encoding.Leads.unique h.mem h'.mem isWord.top isWord'.top
  rw [isWord.residues_eq h.length_values_eq, isWord'.residues_eq h'.length_values_eq]
  exact ⟨rfl, rfl⟩

def OperandKind.text : OperandKind → Nat → List Char
  | .immediate, n => Nat.toDigits 10 n
  | .general, n => (Register.generalNames.getD n "").toList
  | .pointer, n => '*' :: (Register.generalNames.getD n "").toList
  | .scratch, n => (Register.scratchNames.getD n "").toList
  | .scratchPointer, n => '*' :: (Register.scratchNames.getD n "").toList

theorem OperandKind.spells_text {kind : OperandKind} {n : Nat} (register : kind ≠ .immediate → n < 8)
    (long : n < 2 ^ 63) : Operand.Spells (kind.text n) ⟨kind, n⟩ := by
  have named {names : List String} (eight : names.length = 8) (less : n < 8) :
      names[n]? = some (names.getD n "") := by
    rw [List.getD_eq_getElem?_getD, List.getElem?_eq_getElem (eight ▸ less), Option.getD_some]
  cases kind with
  | immediate =>
    have digits : Text.IsDigits (Nat.toDigits 10 n) :=
      ⟨Nat.toDigits_ne_nil, fun c mem => Nat.isDigit_of_mem_toDigits (by decide) (by decide) mem⟩
    have decimal := Text.IsDecimal.plain digits
    rw [Nat.ofDigitChars_ten_toDigits] at decimal
    exact .number decimal (by omega)
  | general => exact .general (named rfl (register (by decide)))
  | pointer => exact .pointer (named rfl (register (by decide)))
  | scratch => exact .scratch (named rfl (register (by decide)))
  | scratchPointer => exact .scratchPointer (named rfl (register (by decide)))

def spread (words : List (List Char)) : List Char :=
  words.flatMap (' ' :: ·)

theorem isBlank_of_mem_head?_spread {words : List (List Char)} : ∀ c ∈ (spread words).head?, Text.isBlank c := by
  intro c mem
  cases words with
  | nil => cases mem
  | cons word words =>
    cases mem
    decide

theorem isSpaced_spread {words : List (List Char)} (solid : ∀ w ∈ words, w ≠ [] ∧ ∀ c ∈ w, ¬ Text.isBlank c) :
    Text.IsSpaced (spread words) words := by
  induction words with
  | nil => exact .blanks (List.forall_mem_nil _)
  | cons word words ih =>
    obtain ⟨⟨nonempty, first⟩, others⟩ := List.forall_mem_cons.1 solid
    rw [spread, List.flatMap_cons, List.cons_append]
    exact (Text.IsSpaced.start nonempty first isBlank_of_mem_head?_spread (ih others)).blank_cons (by decide)

/-- An entry of the instruction set with a number in each of its fields. -/
@[ext]
structure Instruction where
  entry : Encoding
  held : List ((OperandKind × Field) × Nat)
  mem : entry ∈ instructionSet
  fields_eq : held.map Prod.fst = entry.fields
  fits : ∀ slot ∈ held, slot.2 < 2 ^ slot.1.2.width

namespace Instruction

def texts (i : Instruction) : List (List Char) :=
  i.held.map fun slot => slot.1.1.text slot.2

def line (i : Instruction) : List Char :=
  i.entry.mnemonic.toList ++ spread i.texts

def operands (i : Instruction) : List Operand :=
  i.held.map fun slot => ⟨slot.1.1, slot.2⟩

variable (i : Instruction)

theorem kinds_eq : i.entry.kinds = i.operands.map Operand.kind := by
  rw [Encoding.kinds, ← i.fields_eq, operands, List.map_map, List.map_map]
  rfl

theorem slots_zip : i.entry.slots.zip (i.operands.map Operand.value) =
    i.held.map fun slot => (slot.1.2, (slot.2 : Int)) := by
  rw [Encoding.slots, ← i.fields_eq, operands, List.map_map, List.map_map, List.zip_map']
  rfl

theorem residues_eq : i.entry.residues (i.operands.map Operand.value) =
    i.held.map fun slot => (slot.2 : Int) := by
  rw [Encoding.residues, slots_zip, List.map_map]
  refine List.map_congr_left fun slot mem => Int.emod_eq_of_lt (Int.natCast_nonneg _) ?_
  exact Int.natCast_pow 2 _ ▸ Int.ofNat_lt.2 (i.fits slot mem)

theorem spells_text {slot : (OperandKind × Field) × Nat} (mem : slot ∈ i.held) :
    Operand.Spells (slot.1.1.text slot.2) ⟨slot.1.1, slot.2⟩ := by
  have narrow : ∀ e ∈ instructionSet, ∀ slot ∈ e.fields,
      slot.2.width ≤ 16 ∧ (slot.1 ≠ .immediate → slot.2.width = 3) := by
    decide
  have inside : slot.1 ∈ i.entry.fields := i.fields_eq ▸ List.mem_map_of_mem mem
  obtain ⟨width, three⟩ := narrow i.entry i.mem slot.1 inside
  have fits := i.fits slot mem
  refine OperandKind.spells_text (fun register => ?_) ?_
  · rwa [three register] at fits
  · exact Nat.lt_of_lt_of_le fits (Nat.pow_le_pow_right (by decide) (Nat.le_trans width (by decide)))

theorem forall₂_isOperand : List.Forall₂ IsOperand i.texts i.operands := by
  rw [texts, operands, List.forall₂_map_left_iff, List.forall₂_map_right_iff, List.forall₂_same]
  intro slot mem
  have spells := i.spells_text mem
  refine ⟨_, ⟨fun comma => ?_, 0, (List.append_nil _).symm⟩, spells⟩
  exact (spells.solid.2 ',' (List.mem_of_getLast? comma)).2 rfl

theorem isSpaced_line : Text.IsSpaced i.line (i.entry.mnemonic.toList :: i.texts) := by
  have named : ∀ e ∈ instructionSet,
      e.mnemonic.toList ≠ [] ∧ e.mnemonic.toList.all fun c => !Text.isBlank c := by
    decide
  obtain ⟨nonempty, all⟩ := named i.entry i.mem
  have solid : ∀ c ∈ i.entry.mnemonic.toList, ¬ Text.isBlank c := fun c mem => by
    simpa using List.all_eq_true.1 all c mem
  refine .start nonempty solid isBlank_of_mem_head?_spread (isSpaced_spread fun text mem => ?_)
  obtain ⟨slot, inside, rfl⟩ := List.mem_map.1 mem
  obtain ⟨nonempty, solid⟩ := (i.spells_text inside).solid
  exact ⟨nonempty, fun c here => (solid c here).1⟩

theorem isAccepted_line : IsAccepted i.line i.entry i.operands := by
  refine ⟨⟨_, _, i.isSpaced_line, i.forall₂_isOperand, i.mem, String.ofList_toList.symm, i.kinds_eq⟩,
    fun slot mem => ?_⟩
  rw [slots_zip] at mem
  obtain ⟨slot, inside, rfl⟩ := List.mem_map.1 mem
  have less : (slot.2 : Int) < 2 ^ slot.1.2.width :=
    Int.natCast_pow 2 _ ▸ Int.ofNat_lt.2 (i.fits slot inside)
  have low : -(2 : Int) ^ (slot.1.2.width - 1) ≤ 0 := Int.neg_nonpos_of_nonneg (Int.pow_nonneg (by decide))
  exact ⟨Int.le_trans low (Int.natCast_nonneg _), less⟩

theorem eq_of_residues {i j : Instruction} (entry : i.entry = j.entry)
    (residues : i.entry.residues (i.operands.map Operand.value) =
      j.entry.residues (j.operands.map Operand.value)) : i = j := by
  have apart (k : Instruction) : k.held = k.entry.fields.zip (k.held.map Prod.snd) := by
    rw [← k.fields_eq, List.zip_map', List.map_id']
  have numbers : i.held.map Prod.snd = j.held.map Prod.snd := by
    rw [residues_eq, residues_eq] at residues
    refine List.map_injective_iff.2 (fun _ _ => Int.ofNat_inj.1) ?_
    rw [List.map_map, List.map_map]
    exact residues
  refine Instruction.ext entry ?_
  rw [apart i, apart j, entry, numbers]

/-- The entry with what its fields hold of a number. -/
def ofNumber (e : Encoding) (mem : e ∈ instructionSet) (n : Nat) : Instruction where
  entry := e
  held := e.fields.map fun slot => (slot, slot.2.read n)
  mem := mem
  fields_eq := by rw [List.map_map]; exact List.map_id _
  fits slot inside := by
    obtain ⟨f, -, rfl⟩ := List.mem_map.1 inside
    exact Nat.mod_lt _ (Nat.two_pow_pos _)

theorem held_eq_read {word : UInt16} (encoded : encodeLine i.line = .ok word) :
    i.held.map (fun slot => (slot.2 : Int)) = i.entry.slots.map fun f => (f.read word.toNat : Int) := by
  have uses := i.isAccepted_line.uses
  rw [← i.residues_eq, (uses.isWord encoded).residues_eq uses.length_values_eq]

theorem held_ofNumber {e : Encoding} (mem : e ∈ instructionSet) (n : Nat) :
    (ofNumber e mem n).held.map (fun slot => (slot.2 : Int)) = e.slots.map fun f => (f.read n : Int) := by
  rw [ofNumber, Encoding.slots, List.map_map, List.map_map]
  rfl

theorem exists_line {n : Nat} (less : n < 2 ^ wordBits) :
    ∃ i : Instruction, encodeLine i.line = .ok (UInt16.ofNat n) := by
  obtain ⟨e, mem, leads⟩ := Encoding.exists_leads less
  obtain ⟨word, encoded⟩ := (ofNumber e mem n).isAccepted_line.exists_word
  have isWord := (ofNumber e mem n).isAccepted_line.uses.isWord encoded
  have held := (held_ofNumber mem n).symm.trans (held_eq_read _ encoded)
  have number : n = word.toNat :=
    leads.eq_of_read_eq mem isWord.top fun f inside => Int.ofNat_inj.1 (List.map_inj_left.1 held f inside)
  exact ⟨ofNumber e mem n, by rw [encoded, number, UInt16.ofNat_toNat]⟩

end Instruction

theorem length_accepting_le_one (mnemonic : String) (kinds : List OperandKind) :
    ((candidates mnemonic).filter (·.accepts kinds)).length ≤ 1 := by
  have unique := (nodup_mnemonic_kinds.of_map.filter (·.mnemonic == mnemonic)).filter (·.accepts kinds)
  have isFor : ∀ e ∈ (candidates mnemonic).filter (·.accepts kinds), e.IsFor mnemonic kinds := by
    intro e mem
    obtain ⟨inside, accepts⟩ := List.mem_filter.1 mem
    obtain ⟨mem, named⟩ := mem_candidates_iff.1 inside
    exact ⟨mem, named, beq_iff_eq.1 accepts⟩
  change ((candidates mnemonic).filter (·.accepts kinds)).Nodup at unique
  generalize (candidates mnemonic).filter (·.accepts kinds) = accepting at unique isFor
  match accepting with
  | [] => exact Nat.zero_le 1
  | [_] => exact Nat.le_refl 1
  | e :: e' :: others =>
    obtain ⟨first, second, -⟩ := List.forall_mem_cons.1 isFor |>.imp_right List.forall_mem_cons.1
    have same := entry_unique first.mem second.mem (first.mnemonic_eq.trans second.mnemonic_eq.symm)
      (first.kinds_eq.trans second.kinds_eq.symm)
    exact absurd (same ▸ List.mem_cons_self) (List.nodup_cons.1 unique).1

/-- A word tells its entry of the instruction set and, modulo the sizes of their fields, its operands; and
every number of twelve bits is the word of exactly one entry with numbers in its fields. -/
theorem words_tell_instructions :
    (∀ mnemonic kinds, ((candidates mnemonic).filter (·.accepts kinds)).length ≤ 1 ∧
      ∀ table : List Encoding, table.Perm instructionSet →
        (table.filter (·.mnemonic == mnemonic)).find? (·.accepts kinds) =
          (candidates mnemonic).find? (·.accepts kinds)) ∧
    (∀ line word, encodeLine line = .ok word → ∃ e operands, Uses line e operands ∧
      word.toNat < 4096 ∧ (∀ e' ∈ instructionSet, e'.Leads word.toNat ↔ e' = e) ∧
      operands.length = e.slots.length ∧
      ∀ slot ∈ e.slots.zip (operands.map Operand.value),
        ∃ held, slot.1.get word = .ok held ∧ (held.toNat : Int) = slot.2 % 2 ^ slot.1.width) ∧
    (∀ line line' word e e' operands operands', encodeLine line = .ok word → encodeLine line' = .ok word →
      Uses line e operands → Uses line' e' operands' →
      e = e' ∧ e.residues (operands.map Operand.value) = e'.residues (operands'.map Operand.value)) ∧
    ∀ n < 4096, ∃! i : Instruction, encodeLine i.line = .ok (UInt16.ofNat n) := by
  refine ⟨fun mnemonic kinds => ⟨length_accepting_le_one mnemonic kinds, fun table perm => ?_⟩,
    fun line word encoded => ?_, ?_, fun n less => ?_⟩
  · refine Option.ext fun e => ?_
    rw [find?_filter_eq_some_iff table fun e => perm.mem_iff, find?_candidates_eq_some_iff]
  · obtain ⟨e, operands, uses⟩ := exists_uses_of_encodeLine encoded
    have isWord := uses.isWord encoded
    have count := uses.length_values_eq
    rw [List.length_map] at count
    refine ⟨e, operands, uses, isWord.small, fun e' mem' => ⟨fun leads => ?_, ?_⟩, count,
      fun slot inside => isWord.get uses.mem inside⟩
    · exact leads.unique mem' uses.mem isWord.top
    · rintro rfl
      exact isWord.top
  · intro line line' word e e' operands operands' encoded encoded' uses uses'
    exact uses.unique uses' encoded encoded'
  · obtain ⟨i, encoded⟩ := Instruction.exists_line less
    refine ⟨i, encoded, fun j encoded' => ?_⟩
    obtain ⟨entry, residues⟩ := j.isAccepted_line.uses.unique i.isAccepted_line.uses encoded' encoded
    exact Instruction.eq_of_residues entry residues

theorem words_tell_instructions_back_three :
    encodeLine "jmp -3".toList = .ok 1917 ∧ encodeLine "jmp 125".toList = .ok 1917 ∧
      (∃ e operands, Uses "jmp -3".toList e operands ∧ ∃ operands', Uses "jmp 125".toList e operands' ∧
        e.residues (operands.map Operand.value) = e.residues (operands'.map Operand.value) ∧
        ∀ e' ∈ instructionSet, e'.Leads 1917 ↔ e' = e) ∧
      ∃! i : Instruction, encodeLine i.line = .ok 1917 := by
  have back : encodeLine "jmp -3".toList = .ok 1917 := by decide
  have ahead : encodeLine "jmp 125".toList = .ok 1917 := by decide
  obtain ⟨-, used, same, whole⟩ := words_tell_instructions
  obtain ⟨e, operands, uses, -, leads, -⟩ := used _ _ back
  obtain ⟨e', operands', uses', -⟩ := used _ _ ahead
  obtain ⟨rfl, residues⟩ := same _ _ _ _ _ _ _ back ahead uses uses'
  exact ⟨back, ahead, ⟨e, operands, uses, operands', uses', residues, leads⟩, whole 1917 (by decide)⟩

end BlockComputer.Assembly
