import BlockComputer.Assembly.Program
import Mathlib.Algebra.Group.Int.Defs
import Mathlib.Data.List.DropRight
import Mathlib.Data.List.Nodup

/-!
The grammar of a line.

What a line of assembly looks like, told without saying how it is read: words with blanks between them,
commas behind an operand, and operands that are registers, stars with registers, or decimal numbers. The
readers accept exactly these texts.
-/

namespace BlockComputer

namespace Text

/-- The text has these words in this order, with blanks around them and between any two of them. -/
inductive IsSpaced : List Char → List (List Char) → Prop
  | blanks {gap : List Char} (blank : ∀ c ∈ gap, isBlank c) : IsSpaced gap []
  | word {gap word rest : List Char} {others : List (List Char)} (blank : ∀ c ∈ gap, isBlank c)
      (nonempty : word ≠ []) (solid : ∀ c ∈ word, ¬ isBlank c) (apart : ∀ c ∈ rest.head?, isBlank c)
      (spaced : IsSpaced rest others) : IsSpaced (gap ++ (word ++ rest)) (word :: others)

namespace IsSpaced

variable {c : Char} {text : List Char} {ws : List (List Char)}

theorem start {word rest : List Char} (nonempty : word ≠ []) (solid : ∀ c ∈ word, ¬ isBlank c)
    (apart : ∀ c ∈ rest.head?, isBlank c) (spaced : IsSpaced rest ws) :
    IsSpaced (word ++ rest) (word :: ws) := by
  have blank : ∀ c ∈ ([] : List Char), isBlank c := List.forall_mem_nil _
  exact .word blank nonempty solid apart spaced

theorem blank_cons (blank : isBlank c) (h : IsSpaced text ws) : IsSpaced (c :: text) ws := by
  cases h with
  | blanks others => exact .blanks (List.forall_mem_cons.2 ⟨blank, others⟩)
  | word others nonempty solid apart spaced =>
    exact .word (List.forall_mem_cons.2 ⟨blank, others⟩) nonempty solid apart spaced

theorem exists_solid_cons (solid : ¬ isBlank c) (h : IsSpaced text ws) : ∃ vs, IsSpaced (c :: text) vs := by
  have alone (apart : ∀ d ∈ text.head?, isBlank d) : IsSpaced (c :: text) ([c] :: ws) :=
    .start (List.cons_ne_nil _ _) (List.forall_mem_singleton.2 solid) apart h
  cases h with
  | blanks blank =>
    exact ⟨_, alone fun d mem => blank d (List.mem_of_mem_head? mem)⟩
  | @word gap word rest others blank nonempty solids apart spaced =>
    cases gap with
    | nil =>
      exact ⟨_, .start (List.cons_ne_nil c word) (List.forall_mem_cons.2 ⟨solid, solids⟩) apart spaced⟩
    | cons b gap =>
      exact ⟨_, alone fun d mem => by cases mem; exact blank b List.mem_cons_self⟩

theorem exists_words (text : List Char) : ∃ ws, IsSpaced text ws := by
  induction text with
  | nil => exact ⟨[], .blanks (List.forall_mem_nil _)⟩
  | cons c text ih =>
    obtain ⟨ws, spaced⟩ := ih
    by_cases blank : isBlank c
    · exact ⟨ws, spaced.blank_cons blank⟩
    · exact spaced.exists_solid_cons blank

end IsSpaced

theorem words_append_of_blank {gap : List Char} (blank : ∀ c ∈ gap, isBlank c) (text : List Char) :
    words (gap ++ text) = words text := by
  induction gap with
  | nil => rfl
  | cons c gap ih =>
    obtain ⟨first, others⟩ := List.forall_mem_cons.1 blank
    rw [List.cons_append, words.eq_def]
    simp only [first, if_true]
    exact ih others

theorem words_append_of_solid {word rest : List Char} (nonempty : word ≠ [])
    (solid : ∀ c ∈ word, ¬ isBlank c) (apart : ∀ c ∈ rest.head?, isBlank c) :
    words (word ++ rest) = word :: words rest := by
  induction word with
  | nil => exact absurd rfl nonempty
  | cons c word ih =>
    obtain ⟨first, others⟩ := List.forall_mem_cons.1 solid
    cases word with
    | nil =>
      cases rest with
      | nil => simp [words, first]
      | cons d rest => simp [words, first, apart d rfl]
    | cons d word =>
      have second : ¬ isBlank d := others d List.mem_cons_self
      have inner := ih (List.cons_ne_nil _ _) others
      rw [List.cons_append] at inner
      rw [List.cons_append, List.cons_append, words.eq_def]
      simp only [first, second, Bool.false_eq_true, if_false, inner]

/-- A text falls into words in one way only. -/
theorem words_eq_iff {text : List Char} {ws : List (List Char)} :
    words text = ws ↔ IsSpaced text ws := by
  have words_eq {ws : List (List Char)} (spaced : IsSpaced text ws) : words text = ws := by
    induction spaced with
    | @blanks gap blank =>
      have alone := words_append_of_blank blank []
      rwa [List.append_nil] at alone
    | word blank nonempty solid apart _ ih =>
      rw [words_append_of_blank blank, words_append_of_solid nonempty solid apart, ih]
  refine ⟨?_, words_eq⟩
  rintro rfl
  obtain ⟨ws, spaced⟩ := IsSpaced.exists_words text
  rwa [words_eq spaced]

/-- The token is the text, which does not end in a comma, with commas behind it. -/
def Trails (token text : List Char) : Prop :=
  text.getLast? ≠ some ',' ∧ ∃ n, token = text ++ List.replicate n ','

theorem dropEnd_comma_eq_iff {token text : List Char} :
    dropEnd (· == ',') token = text ↔ Trails token text := by
  constructor
  · rintro rfl
    refine ⟨fun last => ?_, (token.reverse.takeWhile (· == ',')).length, ?_⟩
    · rw [dropEnd, List.getLast?_reverse] at last
      have other := List.head?_dropWhile_not (· == ',') token.reverse
      simp [last] at other
    · have commas : ∀ c ∈ (token.reverse.takeWhile (· == ',')).reverse, c = ',' := fun c mem =>
        beq_iff_eq.1 (List.mem_takeWhile_imp (p := (· == ',')) (List.mem_reverse.1 mem))
      have behind := List.eq_replicate_of_mem commas
      rw [List.length_reverse] at behind
      rw [← behind, dropEnd, ← List.reverse_append, List.takeWhile_append_dropWhile,
        List.reverse_reverse]
  · rintro ⟨bare, n, rfl⟩
    have commas : ∀ c ∈ List.replicate n ',', (c == ',') = true := fun c mem =>
      beq_iff_eq.2 (List.eq_of_mem_replicate mem)
    rw [dropEnd, List.reverse_append, List.reverse_replicate, List.dropWhile_append_of_pos commas]
    refine List.rdropWhile_eq_self_iff.2 fun nonempty last => bare ?_
    rw [List.getLast?_eq_some_getLast nonempty, beq_iff_eq.1 last]

def IsDigits (text : List Char) : Prop :=
  text ≠ [] ∧ ∀ c ∈ text, c.isDigit

theorem solid_of_isDigit {c : Char} (digit : c.isDigit) : ¬ isBlank c ∧ c ≠ ',' := by
  have bounds : 48 ≤ c.toNat ∧ c.toNat ≤ 57 := by
    simpa [Char.isDigit, UInt32.le_iff_toNat_le] using digit
  refine ⟨?_, fun comma => absurd (comma ▸ digit) (by decide)⟩
  simp only [isBlank, blankRanges, List.any_cons, List.any_nil, Bool.or_false, Bool.or_eq_true,
    Bool.and_eq_true, decide_eq_true_eq]
  omega

/-- The text is a decimal number with an optional sign, and this is its value. -/
inductive IsDecimal : List Char → Int → Prop
  | plain {digits : List Char} (h : IsDigits digits) : IsDecimal digits (Nat.ofDigitChars 10 digits 0)
  | plus {digits : List Char} (h : IsDigits digits) :
      IsDecimal ('+' :: digits) (Nat.ofDigitChars 10 digits 0)
  | minus {digits : List Char} (h : IsDigits digits) :
      IsDecimal ('-' :: digits) (-(Nat.ofDigitChars 10 digits 0 : Int))

theorem readDigits_eq_some_iff {value n : Nat} {digits : List Char} :
    readDigits value digits = some n ↔
      (∀ c ∈ digits, c.isDigit) ∧ Nat.ofDigitChars 10 digits value = n := by
  induction digits generalizing value with
  | nil => simp [readDigits]
  | cons c digits ih =>
    have same : ('0' ≤ c ∧ c ≤ '9') ↔ c.isDigit := by
      simp [Char.isDigit, Char.le_def]
    rw [readDigits, digit?, List.forall_mem_cons, Nat.ofDigitChars_cons, ← same]
    by_cases digit : '0' ≤ c ∧ c ≤ '9'
    · simp only [digit, and_self, if_true, true_and]
      exact ih
    · simp [digit]

theorem natural?_eq_some_iff {text : List Char} {n : Nat} :
    natural? text = some n ↔ IsDigits text ∧ Nat.ofDigitChars 10 text 0 = n := by
  cases text with
  | nil => simp [natural?, IsDigits]
  | cons c text => simp [natural?, IsDigits, readDigits_eq_some_iff]

theorem integer?_eq_some_iff {text : List Char} {n : Int} :
    integer? text = some n ↔ IsDecimal text n := by
  constructor
  · intro h
    unfold integer? at h
    split at h
    · obtain ⟨_, lifted, rfl⟩ := Option.map_eq_some_iff.1 h
      obtain ⟨m, read, cast⟩ := Option.bind_eq_some_iff.1 lifted
      cases cast
      obtain ⟨digits, rfl⟩ := natural?_eq_some_iff.1 read
      exact .minus digits
    · obtain ⟨m, read, rfl⟩ := Option.map_eq_some_iff.1 h
      obtain ⟨digits, rfl⟩ := natural?_eq_some_iff.1 read
      exact .plus digits
    · obtain ⟨m, read, rfl⟩ := Option.map_eq_some_iff.1 h
      obtain ⟨digits, rfl⟩ := natural?_eq_some_iff.1 read
      exact .plain digits
  · intro decimal
    cases decimal with
    | plus digits => simp [integer?, natural?_eq_some_iff.2 ⟨digits, rfl⟩]
    | minus digits => simp [integer?, natural?_eq_some_iff.2 ⟨digits, rfl⟩]
    | plain digits =>
      unfold integer?
      split
      · exact absurd (digits.2 '-' List.mem_cons_self) (by decide)
      · exact absurd (digits.2 '+' List.mem_cons_self) (by decide)
      · rw [natural?_eq_some_iff.2 ⟨digits, rfl⟩]
        rfl

theorem long?_eq_some_iff {text : List Char} {n : Int} :
    long? text = some n ↔ IsDecimal text n ∧ -2 ^ 63 ≤ n ∧ n < 2 ^ 63 := by
  rw [long?, Option.filter_eq_some_iff, integer?_eq_some_iff, isLong, Bool.and_eq_true,
    decide_eq_true_eq, decide_eq_true_eq]
  rfl

end Text

theorem Register.index?_eq_some_iff {names : List String} (nodup : names.Nodup) {name : String} {i : Nat} :
    index? names name = some i ↔ names[i]? = some name := by
  rw [index?, List.findIdx?_eq_some_iff_getElem, List.getElem?_eq_some_iff]
  refine exists_congr fun less => ?_
  rw [beq_iff_eq]
  refine and_iff_left_of_imp fun here j before => ?_
  rw [beq_iff_eq, ← here]
  exact fun same => absurd ((List.Nodup.getElem_inj_iff nodup).1 same) (Nat.ne_of_lt before)

namespace Assembly.Operand

/-- The text names the operand. -/
inductive Spells : List Char → Operand → Prop
  | general {name : String} {i : Nat} (named : Register.generalNames[i]? = some name) :
      Spells name.toList ⟨.general, i⟩
  | scratch {name : String} {i : Nat} (named : Register.scratchNames[i]? = some name) :
      Spells name.toList ⟨.scratch, i⟩
  | pointer {name : String} {i : Nat} (named : Register.generalNames[i]? = some name) :
      Spells ('*' :: name.toList) ⟨.pointer, i⟩
  | scratchPointer {name : String} {i : Nat} (named : Register.scratchNames[i]? = some name) :
      Spells ('*' :: name.toList) ⟨.scratchPointer, i⟩
  | number {text : List Char} {n : Int} (decimal : Text.IsDecimal text n)
      (long : -2 ^ 63 ≤ n ∧ n < 2 ^ 63) : Spells text ⟨.immediate, n⟩

theorem Spells.solid {text : List Char} {o : Operand} (h : Spells text o) :
    text ≠ [] ∧ ∀ c ∈ text, ¬ Text.isBlank c ∧ c ≠ ',' := by
  have names : ∀ name ∈ Register.generalNames ++ Register.scratchNames,
      name.toList ≠ [] ∧ name.toList.all fun c => !Text.isBlank c && c != ',' := by
    decide
  have register {name : String} (mem : name ∈ Register.generalNames ++ Register.scratchNames) :
      name.toList ≠ [] ∧ ∀ c ∈ name.toList, ¬ Text.isBlank c ∧ c ≠ ',' :=
    (names name mem).imp_right fun solid c inside => by simpa using List.all_eq_true.1 solid c inside
  have starred {name : List Char} (h : ∀ c ∈ name, ¬ Text.isBlank c ∧ c ≠ ',') :
      ∀ c ∈ '*' :: name, ¬ Text.isBlank c ∧ c ≠ ',' :=
    List.forall_mem_cons.2 ⟨by decide, h⟩
  cases h with
  | general named => exact register (List.mem_append_left _ (List.mem_of_getElem? named))
  | scratch named => exact register (List.mem_append_right _ (List.mem_of_getElem? named))
  | pointer named =>
    exact ⟨List.cons_ne_nil _ _, starred (register (List.mem_append_left _ (List.mem_of_getElem? named))).2⟩
  | scratchPointer named =>
    exact ⟨List.cons_ne_nil _ _, starred (register (List.mem_append_right _ (List.mem_of_getElem? named))).2⟩
  | number decimal =>
    cases decimal with
    | plain digits => exact ⟨digits.1, fun c mem => Text.solid_of_isDigit (digits.2 c mem)⟩
    | plus digits =>
      exact ⟨List.cons_ne_nil _ _,
        List.forall_mem_cons.2 ⟨by decide, fun c mem => Text.solid_of_isDigit (digits.2 c mem)⟩⟩
    | minus digits =>
      exact ⟨List.cons_ne_nil _ _,
        List.forall_mem_cons.2 ⟨by decide, fun c mem => Text.solid_of_isDigit (digits.2 c mem)⟩⟩

theorem ofRegister?_eq_some_iff {first second : OperandKind} {name : String} {o : Operand} :
    ofRegister? first second name = some o ↔
      (∃ i : Nat, Register.generalNames[i]? = some name ∧ ⟨first, i⟩ = o) ∨
        ∃ i : Nat, Register.scratchNames[i]? = some name ∧ ⟨second, i⟩ = o := by
  have general (i : Nat) :
      Register.index? Register.generalNames name = some i ↔ Register.generalNames[i]? = some name :=
    Register.index?_eq_some_iff (by decide)
  have scratch (i : Nat) :
      Register.index? Register.scratchNames name = some i ↔ Register.scratchNames[i]? = some name :=
    Register.index?_eq_some_iff (by decide)
  have disjoint : ∀ name ∈ Register.generalNames, name ∉ Register.scratchNames := by decide
  simp only [← general, ← scratch]
  unfold ofRegister?
  cases found : Register.index? Register.generalNames name with
  | some i =>
    have inside := disjoint name (List.mem_of_getElem? ((general i).1 found))
    have none : Register.index? Register.scratchNames name = none :=
      Option.eq_none_iff_forall_ne_some.2 fun j other =>
        inside (List.mem_of_getElem? ((scratch j).1 other))
    simp [none]
  | none => simp [Option.bind_eq_some_iff]

theorem mem_of_ofRegister? {first second : OperandKind} {name : String} {o : Operand}
    (found : ofRegister? first second name = some o) :
    name ∈ Register.generalNames ++ Register.scratchNames := by
  rcases ofRegister?_eq_some_iff.1 found with ⟨i, named, -⟩ | ⟨i, named, -⟩
  · exact List.mem_append_left _ (List.mem_of_getElem? named)
  · exact List.mem_append_right _ (List.mem_of_getElem? named)

theorem exists_cons_of_isDecimal {text : List Char} {n : Int} (h : Text.IsDecimal text n) :
    ∃ c rest, text = c :: rest ∧ (c.isDigit ∨ c = '+' ∨ c = '-') := by
  cases h with
  | plain digits =>
    obtain ⟨c, rest, rfl⟩ := List.exists_cons_of_ne_nil digits.1
    exact ⟨c, rest, rfl, .inl (digits.2 c List.mem_cons_self)⟩
  | plus => exact ⟨'+', _, rfl, .inr (.inl rfl)⟩
  | minus => exact ⟨'-', _, rfl, .inr (.inr rfl)⟩

theorem start_of_register {name : String} (mem : name ∈ Register.generalNames ++ Register.scratchNames)
    {c : Char} {rest : List Char} (text : name.toList = c :: rest) :
    c.isDigit = false ∧ c ≠ '+' ∧ c ≠ '-' ∧ c ≠ '*' := by
  have starts : ∀ name ∈ Register.generalNames ++ Register.scratchNames,
      name.toList.head?.all fun c => !c.isDigit && c != '+' && c != '-' && c != '*' := by
    decide
  simpa [text, and_assoc] using starts name mem

theorem parse?_of_isDecimal {text : List Char} {n : Int} (h : Text.IsDecimal text n)
    (long : -2 ^ 63 ≤ n ∧ n < 2 ^ 63) : parse? text = some ⟨.immediate, n⟩ := by
  obtain ⟨c, rest, rfl, start⟩ := exists_cons_of_isDecimal h
  have noRegister : ofRegister? .general .scratch (String.ofList (c :: rest)) = none := by
    refine Option.eq_none_iff_forall_ne_some.2 fun o found => ?_
    obtain ⟨digit, plus, minus, -⟩ := start_of_register (mem_of_ofRegister? found) String.toList_ofList
    rcases start with yes | yes | yes
    · exact absurd yes (by simp [digit])
    · exact plus yes
    · exact minus yes
  unfold parse?
  split
  · next same =>
    cases same
    exact absurd start (by decide)
  · rw [noRegister, Text.long?_eq_some_iff.2 ⟨h, long⟩]
    rfl

theorem parse?_of_register {name : String} {o : Operand}
    (found : ofRegister? .general .scratch name = some o) : parse? name.toList = some o := by
  unfold parse?
  split
  · next same =>
    exact absurd rfl (start_of_register (mem_of_ofRegister? found) same).2.2.2
  · rw [String.ofList_toList, found]

theorem parse?_eq_some_iff {text : List Char} {o : Operand} : parse? text = some o ↔ Spells text o := by
  constructor
  · intro h
    unfold parse? at h
    split at h
    · next name =>
      rw [← String.toList_ofList (l := name)]
      rcases ofRegister?_eq_some_iff.1 h with ⟨i, named, rfl⟩ | ⟨i, named, rfl⟩
      · exact .pointer named
      · exact .scratchPointer named
    · split at h
      · next found =>
        cases h
        rw [← String.toList_ofList (l := text)]
        rcases ofRegister?_eq_some_iff.1 found with ⟨i, named, rfl⟩ | ⟨i, named, rfl⟩
        · exact .general named
        · exact .scratch named
      · obtain ⟨n, read, rfl⟩ := Option.map_eq_some_iff.1 h
        obtain ⟨decimal, long⟩ := Text.long?_eq_some_iff.1 read
        exact .number decimal long
  · intro spells
    cases spells with
    | general named => exact parse?_of_register (ofRegister?_eq_some_iff.2 (.inl ⟨_, named, rfl⟩))
    | scratch named => exact parse?_of_register (ofRegister?_eq_some_iff.2 (.inr ⟨_, named, rfl⟩))
    | @pointer name i named =>
      rw [parse?, String.ofList_toList]
      exact ofRegister?_eq_some_iff.2 (.inl ⟨_, named, rfl⟩)
    | @scratchPointer name i named =>
      rw [parse?, String.ofList_toList]
      exact ofRegister?_eq_some_iff.2 (.inr ⟨_, named, rfl⟩)
    | number decimal long => exact parse?_of_isDecimal decimal long

end Assembly.Operand

end BlockComputer
