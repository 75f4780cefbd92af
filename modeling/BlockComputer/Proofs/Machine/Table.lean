import BlockComputer.Proofs.Assembly.Encoding
import BlockComputer.Proofs.Assembly.Line
import BlockComputer.Proofs.Machine.Decoding

/-!
The assembler's table, as the machine reads it.

The table gives every instruction an opcode and fields. The row of a word depends only on its opcode
unless it is a card's, so the row that an instruction is meant for is checked on one word of each
encoding; and what decoding takes out of a word is what the instruction's operands have in their fields.
-/

namespace BlockComputer

namespace Assembly

/-- The chain that an instruction is meant for. -/
inductive Meaning where
  | row (group name : String)
  | card
  | reserved
deriving DecidableEq, Repr

def meaning (mnemonic : String) (kinds : List OperandKind) : Meaning :=
  match kinds, mnemonic with
  | [.general, .scratch], "mov" => .row "arithmetic" "mov_from_scratch"
  | [.scratch, .general], "mov" => .row "arithmetic" "mov_to_scratch"
  | [.general, .pointer], "mov" => .row "arithmetic" "load"
  | [.pointer, .general], "mov" => .row "arithmetic" "store"
  | [.general], "cmp" => .row "arithmetic" "cmp0"
  | _, "jlt" | _, "jlta" => .row "jump" "lt"
  | _, "jle" | _, "jlea" => .row "jump" "le"
  | _, "jeq" | _, "jeqa" => .row "jump" "eq"
  | _, "jge" | _, "jgea" => .row "jump" "ge"
  | _, "jgt" | _, "jgta" => .row "jump" "gt"
  | _, "jne" | _, "jnea" => .row "jump" "ne"
  | _, "jmp" | _, "jmpa" => .row "jump" "jmp"
  | _, "call" => .row "jump" "call"
  | _, "const" => .row "constant" "const"
  | _, "sconst" => .row "constant" "sconst"
  | _, "econst" => .row "constant" "econst"
  | _, "card" => .card
  | _, name => if name.toList.take 3 = ['R', 'E', 'S'] then .reserved else .row "arithmetic" name

def offsetJumps : List String := ["jlt", "jle", "jeq", "jge", "jgt", "jne", "jmp"]

def pageJumps : List String := ["jlta", "jlea", "jeqa", "jgea", "jgta", "jnea", "jmpa", "call"]

end Assembly

namespace Machine

open Assembly

def firstWord (e : Encoding) : Nat :=
  e.opcode.toNat * 2 ^ e.freeBits

def rowBits (n : Nat) : Nat :=
  match n / 1024 with
  | 0 => if n < 896 then 6 else 3
  | 1 => if n < 1920 then 7 else 4
  | 2 => 8
  | _ => 6

theorem rowBits_le (n : Nat) : rowBits n ≤ 10 := by
  unfold rowBits
  split
  · split <;> decide
  · split <;> decide
  · decide
  · decide

theorem rowOf_eq_of_div {m n t : Nat} (low : t ≤ rowBits m) (same : n / 2 ^ t = m / 2 ^ t) :
    n / 1024 = m / 1024 ∧ rowOf n = rowOf m := by
  have above {k : Nat} (h : t ≤ k) : n / 2 ^ k = m / 2 ^ k := by
    rw [← Nat.add_sub_cancel' h, Nat.pow_add, ← Nat.div_div_eq_div_mul, same,
      Nat.div_div_eq_div_mul]
  have group : n / 1024 = m / 1024 := by
    have bits := above (Nat.le_trans low (rowBits_le m))
    omega
  refine ⟨group, ?_⟩
  unfold rowOf
  rw [group]
  unfold rowBits at low
  obtain q | q | q | ⟨k, q⟩ :
      m / 1024 = 0 ∨ m / 1024 = 1 ∨ m / 1024 = 2 ∨ ∃ k, m / 1024 = k + 3 := by
    rcases Nat.lt_or_ge (m / 1024) 3 with less | high
    · omega
    · exact .inr (.inr (.inr ⟨_, (Nat.sub_add_cancel high).symm⟩))
  · simp only [q] at low ⊢
    by_cases small : m < 896
    · rw [if_pos small] at low
      have bits := above low
      rw [if_pos small, if_pos (by omega)]
      omega
    · rw [if_neg small] at low
      have bits := above low
      rw [if_neg small, if_neg (by omega)]
      omega
  · simp only [q] at low ⊢
    by_cases small : m < 1920
    · rw [if_pos small] at low
      have bits := above low
      rw [if_pos small, if_pos (by omega)]
      omega
    · rw [if_neg small] at low
      have bits := above low
      rw [if_neg small, if_neg (by omega)]
      omega
  · simp only [q] at low ⊢
    have bits := above low
    omega
  · simp only [q] at low ⊢
    have bits := above low
    omega

theorem firstWord_div (e : Encoding) : firstWord e / 2 ^ e.freeBits = e.opcode.toNat :=
  Nat.mul_div_cancel _ (Nat.two_pow_pos _)

def rowNames (group : Nat) : List String :=
  match group with
  | 0 => ["mov", "add", "sub", "mul", "div", "mod", "min", "max", "split", "cmp", "mov_from_scratch",
      "mov_to_scratch", "load", "store", "ldc", "inc", "dec", "neg", "clr", "asr12", "asl12",
      "reserved", "cmp0", "push", "pop", "reserved", "reserved", "reserved", "ret", "reserved"]
  | 1 => ["lt", "le", "eq", "ge", "gt", "ne", "jmp", "call"]
  | 2 => ["const", "sconst", "econst", "reserved"]
  | _ => []

def groupLabel (group : Nat) : String :=
  match group with
  | 0 => "arithmetic"
  | 1 => "jump"
  | 2 => "constant"
  | _ => "card"

def fits (m : Meaning) (group name : String) (n : Nat) : Bool :=
  match m with
  | .row group' name' => group = group' ∧ name = name'
  | .card => false
  | .reserved => name = "reserved" ∨ group = "arithmetic" ∧ name = "ret" ∧ n % 8 ≠ 0

theorem fits_congr {m : Meaning} {group name : String} {k n : Nat} (same : name = "ret" → n = k)
    (h : fits m group name k) : fits m group name n := by
  cases m with
  | row | card => exact h
  | reserved =>
    simp only [fits, decide_eq_true_eq] at h ⊢
    rcases h with empty | ⟨arithmetic, ret, nonzero⟩
    · exact .inl empty
    · exact .inr ⟨arithmetic, ret, same ret ▸ nonzero⟩

/-- The first word of every encoding but that of cards selects a row that it is meant for. -/
theorem instructionSet_rows : ∀ e ∈ instructionSet, e.mnemonic ≠ "card" →
    e.freeBits ≤ rowBits (firstWord e) ∧ firstWord e / 1024 < 3 ∧
      ∃ name ∈ (rowNames (firstWord e / 1024))[rowOf (firstWord e) - 1]?,
        (name = "ret" → e.freeBits = 0) ∧
          fits (meaning e.mnemonic e.kinds) (groupLabel (firstWord e / 1024)) name (firstWord e) := by
  decide

inductive Format where
  | pair | lone | bare | offset | page | constant | card
deriving DecidableEq, Repr

/-- The encoding has this format: its fields, and the words that it takes. -/
def Format.describes (f : Format) (e : Encoding) : Bool :=
  let group := firstWord e / 1024
  match f with
  | .pair => e.slots = [⟨3, 3⟩, ⟨3, 0⟩] ∧ .immediate ∉ e.kinds ∧ e.mnemonic ≠ "card" ∧ group = 0
  | .lone => e.slots = [⟨3, 0⟩] ∧ .immediate ∉ e.kinds ∧ e.mnemonic ≠ "card" ∧ group = 0
  | .bare => e.slots = [] ∧ e.freeBits = 0 ∧ e.mnemonic ≠ "card" ∧ group = 0 ∧
      (e.mnemonic = "ret" → firstWord e % 8 = 0)
  | .offset => e.slots = [⟨7, 0⟩] ∧ e.kinds = [.immediate] ∧ e.mnemonic ∈ offsetJumps ∧
      e.freeBits = 7 ∧ group = 1 ∧ firstWord e < 1920
  | .page => e.slots = [⟨4, 0⟩] ∧ e.kinds = [.immediate] ∧ e.mnemonic ∉ offsetJumps ∧
      e.mnemonic ∈ pageJumps ∧ e.freeBits = 4 ∧ group = 1 ∧ 1920 ≤ firstWord e
  | .constant => e.slots = [⟨8, 0⟩] ∧ e.kinds = [.immediate] ∧ e.mnemonic ∉ offsetJumps ∧
      e.mnemonic ∉ pageJumps ∧ e.mnemonic ≠ "card" ∧ group = 2
  | .card => e.slots = [⟨4, 6⟩, ⟨6, 0⟩] ∧ e.kinds = [.immediate, .immediate] ∧
      e.mnemonic = "card" ∧ e.freeBits = 10 ∧ e.opcode = 3

theorem instructionSet_formats : ∀ e ∈ instructionSet,
    ∃ f ∈ [Format.pair, .lone, .bare, .offset, .page, .constant, .card], f.describes e := by
  decide

def Selected (before after : World) (n : Nat) : Prop :=
  match n / 1024 with
  | 0 => after.score ⟨"arith_src"⟩ = Int32.ofNat (n % 8) ∧
      after.score ⟨"arith_dst"⟩ = Int32.ofNat (n / 8 % 8)
  | 1 => after.score ⟨"jump_target"⟩ = jumpTarget n (before.score ⟨"ip"⟩) (before.score ⟨"cr"⟩)
  | 2 => after.score ⟨"const_imm"⟩ = Int32.ofNat (n % 256)
  | _ => after.score ⟨"card_arg"⟩ = Int32.ofNat (n % 64)

/-- The scores that the chain of an instruction reads hold its operands: the numbers of registers, an
address, or a number of as many bits as its field has. -/
def OperandsHold (before after : World) (mnemonic : String) (operands : List Operand) : Prop :=
  match operands with
  | [] => mnemonic = "ret" → after.score ⟨"arith_src"⟩ = 0
  | [v] =>
    if v.kind ≠ .immediate then after.score ⟨"arith_src"⟩ = Int32.ofInt v.value
    else if mnemonic ∈ offsetJumps then
      after.score ⟨"jump_target"⟩ = before.score ⟨"ip"⟩ + Int32.ofInt (v.value.bmod 128)
    else if mnemonic ∈ pageJumps then
      after.score ⟨"jump_target"⟩ = Int32.ofInt (v.value % 16) * 256 + before.score ⟨"cr"⟩
    else after.score ⟨"const_imm"⟩ = Int32.ofInt (v.value % 256)
  | [v, u] =>
    if mnemonic = "card" then after.score ⟨"card_arg"⟩ = Int32.ofInt (u.value % 64)
    else after.score ⟨"arith_dst"⟩ = Int32.ofInt v.value ∧
      after.score ⟨"arith_src"⟩ = Int32.ofInt u.value
  | _ => False

section operands

variable {e : Encoding} {operands : List Operand} {n : Nat} {before after : World}

theorem ofNat_raw (f : Field) (value : Int) :
    Int32.ofNat (f.raw value) = Int32.ofInt (value % (2 : Int) ^ f.width) := by
  have pos : (0 : Int) < (2 : Int) ^ f.width := Int.pow_pos (by decide)
  rw [← Int32.ofInt_eq_ofNat, Field.raw, Int.toNat_of_nonneg (Int.emod_nonneg _ (Int.ne_of_gt pos))]

theorem ofNat_raw_register {v : Operand} (sound : v.IsSound) (register : v.kind ≠ .immediate)
    (skip : Nat) : Int32.ofNat (Field.raw ⟨3, skip⟩ v.value) = Int32.ofInt v.value := by
  obtain ⟨nonneg, less⟩ := sound register
  have same : v.value % (2 : Int) ^ (3 : Nat) = v.value := Int.emod_eq_of_lt nonneg less
  rw [ofNat_raw, same]

theorem read_bottom (width n : Nat) : Field.read ⟨width, 0⟩ n = n % 2 ^ width := by
  rw [Field.read_eq, Nat.pow_zero, Nat.div_one]

theorem div_eq_firstWord (word : e.IsWord (operands.map Operand.value) n) :
    n / 2 ^ e.freeBits = firstWord e / 2 ^ e.freeBits := by
  rw [word.top, firstWord_div]

theorem ne_card_of_jump {mnemonic : String} (jumps : mnemonic ∈ offsetJumps ++ pageJumps) :
    mnemonic ≠ "card" := by
  rintro rfl
  revert jumps
  decide

theorem kind_eq_immediate {v : Operand} (kinds : e.kinds = [v].map Operand.kind)
    (number : e.kinds = [.immediate]) : v.kind = .immediate := by
  rw [number] at kinds
  simpa using kinds.symm

theorem group_eq (mem : e ∈ instructionSet) (notCard : e.mnemonic ≠ "card")
    (word : e.IsWord (operands.map Operand.value) n) :
    n / 1024 = firstWord e / 1024 ∧ rowOf n = rowOf (firstWord e) :=
  rowOf_eq_of_div (instructionSet_rows e mem notCard).1 (div_eq_firstWord word)

theorem eq_firstWord (noBits : e.freeBits = 0) (word : e.IsWord (operands.map Operand.value) n) :
    n = firstWord e := by
  have top := div_eq_firstWord word
  rwa [noBits, Nat.pow_zero, Nat.div_one, Nat.div_one] at top

theorem operandsHold_pair {d s : Operand} {mnemonic : String} (notCard : mnemonic ≠ "card")
    (soundD : d.IsSound) (soundS : s.IsSound) (registerD : d.kind ≠ .immediate)
    (registerS : s.kind ≠ .immediate) (readD : Field.read ⟨3, 3⟩ n = Field.raw ⟨3, 3⟩ d.value)
    (readS : Field.read ⟨3, 0⟩ n = Field.raw ⟨3, 0⟩ s.value) (group : n / 1024 = 0)
    (selected : Selected before after n) : OperandsHold before after mnemonic [d, s] := by
  rw [read_bottom] at readS
  simp only [Selected, group] at selected
  obtain ⟨source, destination⟩ := selected
  rw [OperandsHold, if_neg notCard, source, destination]
  refine ⟨?_, ?_⟩
  · rw [← ofNat_raw_register soundD registerD 3, ← readD]
    rfl
  · have low : n % 8 = Field.raw ⟨3, 0⟩ s.value := by omega
    rw [low, ofNat_raw_register soundS registerS 0]

theorem operandsHold_lone {v : Operand} {mnemonic : String} (sound : v.IsSound)
    (register : v.kind ≠ .immediate) (read : Field.read ⟨3, 0⟩ n = Field.raw ⟨3, 0⟩ v.value)
    (group : n / 1024 = 0) (selected : Selected before after n) :
    OperandsHold before after mnemonic [v] := by
  rw [read_bottom] at read
  simp only [Selected, group] at selected
  have low : n % 8 = Field.raw ⟨3, 0⟩ v.value := by omega
  rw [OperandsHold, if_pos register, selected.1, low, ofNat_raw_register sound register 0]

theorem operandsHold_offset {v : Operand} {mnemonic : String} (number : v.kind = .immediate)
    (named : mnemonic ∈ offsetJumps) (read : Field.read ⟨7, 0⟩ n = Field.raw ⟨7, 0⟩ v.value)
    (group : n / 1024 = 1) (low : n < 1920) (selected : Selected before after n) :
    OperandsHold before after mnemonic [v] := by
  rw [read_bottom] at read
  have bits : n % 128 = (v.value % 128).toNat := read
  have same : (n : Int) % ((128 : Nat) : Int) = v.value % ((128 : Nat) : Int) := by omega
  have offset : (n : Int).bmod 128 = v.value.bmod 128 := by
    rw [Int.bmod_def, Int.bmod_def, same]
  simp only [Selected, group, jumpTarget, if_pos low] at selected
  rw [OperandsHold, if_neg (not_not.2 number), if_pos named, selected, offset]

theorem operandsHold_page {v : Operand} {mnemonic : String} (number : v.kind = .immediate)
    (notOffset : mnemonic ∉ offsetJumps) (named : mnemonic ∈ pageJumps)
    (read : Field.read ⟨4, 0⟩ n = Field.raw ⟨4, 0⟩ v.value) (group : n / 1024 = 1)
    (high : ¬ n < 1920) (selected : Selected before after n) :
    OperandsHold before after mnemonic [v] := by
  rw [read_bottom] at read
  have page : Int32.ofNat (n % 16) = Int32.ofInt (v.value % 16) := by
    rw [show n % 16 = Field.raw ⟨4, 0⟩ v.value from read, ofNat_raw]
    rfl
  simp only [Selected, group, jumpTarget, if_neg high] at selected
  rw [OperandsHold, if_neg (not_not.2 number), if_neg notOffset, if_pos named, selected, page]

theorem operandsHold_constant {v : Operand} {mnemonic : String} (number : v.kind = .immediate)
    (notOffset : mnemonic ∉ offsetJumps) (notPage : mnemonic ∉ pageJumps)
    (read : Field.read ⟨8, 0⟩ n = Field.raw ⟨8, 0⟩ v.value) (group : n / 1024 = 2)
    (selected : Selected before after n) : OperandsHold before after mnemonic [v] := by
  rw [read_bottom] at read
  simp only [Selected, group] at selected
  rw [OperandsHold, if_neg (not_not.2 number), if_neg notOffset, if_neg notPage, selected,
    show n % 256 = Field.raw ⟨8, 0⟩ v.value from read, ofNat_raw]
  rfl

theorem operandsHold_card {i j : Operand}
    (read : Field.read ⟨6, 0⟩ n = Field.raw ⟨6, 0⟩ j.value) (group : n / 1024 = 3)
    (selected : Selected before after n) : OperandsHold before after "card" [i, j] := by
  rw [read_bottom] at read
  simp only [Selected, group] at selected
  rw [OperandsHold, if_pos rfl, selected, show n % 64 = Field.raw ⟨6, 0⟩ j.value from read, ofNat_raw]
  rfl

theorem operandsHold (mem : e ∈ instructionSet) (kinds : e.kinds = operands.map Operand.kind)
    (sound : ∀ v ∈ operands, v.IsSound) (word : e.IsWord (operands.map Operand.value) n)
    (selected : Selected before after n) : OperandsHold before after e.mnemonic operands := by
  have lengths : operands.length = e.slots.length := by
    rw [← List.length_map Operand.kind, ← kinds, Encoding.slots, Encoding.kinds, List.length_map,
      List.length_map]
  have slots := word.slots
  have group (notCard : e.mnemonic ≠ "card") := (group_eq mem notCard word).1
  obtain ⟨f, -, described⟩ := instructionSet_formats e mem
  cases f <;> simp only [Format.describes, decide_eq_true_eq] at described
  case pair =>
    obtain ⟨fields, registers, notCard, zero⟩ := described
    rw [fields] at slots lengths
    obtain ⟨d, s, rfl⟩ := List.length_eq_two.1 lengths
    rw [kinds] at registers
    simp only [List.map_cons, List.map_nil, List.mem_cons, List.not_mem_nil, or_false,
      not_or] at registers
    exact operandsHold_pair notCard (sound d (by simp)) (sound s (by simp)) (Ne.symm registers.1)
      (Ne.symm registers.2) (slots (⟨3, 3⟩, d.value) (by simp))
      (slots (⟨3, 0⟩, s.value) (by simp)) ((group notCard).trans zero) selected
  case lone =>
    obtain ⟨fields, registers, notCard, zero⟩ := described
    rw [fields] at slots lengths
    obtain ⟨v, rfl⟩ := List.length_eq_one_iff.1 lengths
    rw [kinds] at registers
    simp only [List.map_cons, List.map_nil, List.mem_singleton] at registers
    exact operandsHold_lone (sound v (by simp)) (Ne.symm registers)
      (slots (⟨3, 0⟩, v.value) (by simp)) ((group notCard).trans zero) selected
  case bare =>
    obtain ⟨fields, noBits, notCard, zero, ret⟩ := described
    rw [fields] at lengths
    obtain rfl := List.length_eq_zero_iff.1 lengths
    intro named
    simp only [Selected, (group notCard).trans zero] at selected
    rw [selected.1, eq_firstWord noBits word, ret named]
    rfl
  case offset =>
    obtain ⟨fields, number, named, bits, one, low⟩ := described
    rw [fields] at slots lengths
    obtain ⟨v, rfl⟩ := List.length_eq_one_iff.1 lengths
    have notCard := ne_card_of_jump (List.mem_append_left _ named)
    have top : n / 128 = firstWord e / 128 := by simpa [bits] using div_eq_firstWord word
    exact operandsHold_offset (kind_eq_immediate kinds number) named
      (slots (⟨7, 0⟩, v.value) (by simp)) ((group notCard).trans one) (by omega) selected
  case page =>
    obtain ⟨fields, number, notOffset, named, bits, one, high⟩ := described
    rw [fields] at slots lengths
    obtain ⟨v, rfl⟩ := List.length_eq_one_iff.1 lengths
    have notCard := ne_card_of_jump (List.mem_append_right _ named)
    have top : n / 16 = firstWord e / 16 := by simpa [bits] using div_eq_firstWord word
    exact operandsHold_page (kind_eq_immediate kinds number) notOffset named
      (slots (⟨4, 0⟩, v.value) (by simp)) ((group notCard).trans one) (by omega) selected
  case constant =>
    obtain ⟨fields, number, notOffset, notPage, notCard, two⟩ := described
    rw [fields] at slots lengths
    obtain ⟨v, rfl⟩ := List.length_eq_one_iff.1 lengths
    exact operandsHold_constant (kind_eq_immediate kinds number) notOffset notPage
      (slots (⟨8, 0⟩, v.value) (by simp)) ((group notCard).trans two) selected
  case card =>
    obtain ⟨fields, -, named, bits, opcode⟩ := described
    rw [fields] at slots lengths
    obtain ⟨i, j, rfl⟩ := List.length_eq_two.1 lengths
    have top : n / 1024 = 3 := by
      have same := word.top
      rw [bits, opcode] at same
      exact same
    rw [named]
    exact operandsHold_card (slots (⟨6, 0⟩, j.value) (by simp)) top selected

end operands

end Machine

end BlockComputer
