import BlockComputer.Text.Numeral
import BlockComputer.Text.Quoted
import Mathlib.Tactic.SplitIfs

/-!
Quoted text read back.

The reader takes the mark off the front, undoes the escapes and stops at the first mark that is not
escaped. Behind a quoted text it stands at what followed it, and the text is the one that was quoted.
-/

namespace BlockComputer.Text.Quoted

def unescape? (c : Char) : Option Char :=
  if c = 'n' then some '\n'
  else if c = 'r' then some '\r'
  else if c = 't' then some '\t'
  else if c = '\\' ∨ c = single ∨ c = double then some c
  else none

def ofCode? (high low : Char) : Option Char := do
  let h ← digitIn? 16 high
  let l ← digitIn? 16 low
  return Char.ofNat (16 * h + l)

def readText? (delimiter : Char) : List Char → Option (List Char × List Char)
  | [] => none
  | '\\' :: 'x' :: high :: low :: rest => do
    let c ← ofCode? high low
    (readText? delimiter rest).map fun r => (c :: r.1, r.2)
  | '\\' :: letter :: rest => do
    let c ← unescape? letter
    (readText? delimiter rest).map fun r => (c :: r.1, r.2)
  | c :: rest =>
    if c = delimiter then some ([], rest)
    else (readText? delimiter rest).map fun r => (c :: r.1, r.2)

def read? : List Char → Option (List Char × List Char)
  | [] => none
  | delimiter :: rest => if delimiter = single ∨ delimiter = double then readText? delimiter rest else none

theorem mark_eq (text : List Char) : mark text = single ∨ mark text = double := by
  unfold mark
  split_ifs
  · exact .inr rfl
  · exact .inl rfl

theorem digitIn?_hexDigit {n : Nat} (less : n < 16) : digitIn? 16 (hexDigit n) = some n := by
  revert n
  decide

theorem isControl_hexDigit {n : Nat} (less : n < 16) : isControl (hexDigit n) = false := by
  revert n
  decide

theorem isControl_lt {c : Char} (control : isControl c) : c.toNat < 128 := by
  simp only [isControl, Bool.or_eq_true, decide_eq_true_eq, beq_iff_eq] at control
  omega

theorem ofCode?_hexDigit {c : Char} (control : isControl c) :
    ofCode? (hexDigit (c.toNat / 16)) (hexDigit (c.toNat % 16)) = some c := by
  have less := isControl_lt control
  rw [ofCode?, digitIn?_hexDigit (by omega), digitIn?_hexDigit (by omega)]
  change some (Char.ofNat (16 * (c.toNat / 16) + c.toNat % 16)) = some c
  rw [Nat.div_add_mod, Char.ofNat_toNat]

variable {delimiter : Char}

theorem readText?_code {high low c : Char} (code : ofCode? high low = some c) (rest : List Char) :
    readText? delimiter ('\\' :: 'x' :: high :: low :: rest) =
      (readText? delimiter rest).map fun r => (c :: r.1, r.2) := by
  rw [readText?, code]
  rfl

theorem readText?_letter {letter c : Char} (known : unescape? letter = some c) (rest : List Char) :
    readText? delimiter ('\\' :: letter :: rest) =
      (readText? delimiter rest).map fun r => (c :: r.1, r.2) := by
  rw [readText?, known]
  · rfl
  · rintro _ _ _ rfl
    cases known

theorem readText?_plain {c : Char} (bare : c ≠ '\\') (rest : List Char) :
    readText? delimiter (c :: rest) = if c = delimiter then some ([], rest)
      else (readText? delimiter rest).map fun r => (c :: r.1, r.2) := by
  rw [readText?]
  · rintro _ _ _ rfl
    exact absurd rfl bare
  · rintro _ _ rfl
    exact absurd rfl bare

/-- The reader takes one written character for the character that it stands for. -/
theorem readText?_escape (quote : delimiter = single ∨ delimiter = double) (c : Char) (rest : List Char) :
    readText? delimiter (escape delimiter c ++ rest) =
      (readText? delimiter rest).map fun r => (c :: r.1, r.2) := by
  unfold escape
  split_ifs with backslash feed turn tab mark control
  · exact readText?_letter (by rw [backslash]; rfl) rest
  · exact readText?_letter (by rw [feed]; rfl) rest
  · exact readText?_letter (by rw [turn]; rfl) rest
  · exact readText?_letter (by rw [tab]; rfl) rest
  · refine readText?_letter ?_ rest
    obtain rfl | rfl := quote <;> rw [mark] <;> rfl
  · exact readText?_code (ofCode?_hexDigit control) rest
  · rw [List.singleton_append, readText?_plain backslash, if_neg mark]

theorem readText?_flatMap_escape (quote : delimiter = single ∨ delimiter = double)
    (text behind : List Char) :
    readText? delimiter (text.flatMap (escape delimiter) ++ delimiter :: behind) = some (text, behind) := by
  induction text with
  | nil =>
    have bare : delimiter ≠ '\\' := by
      obtain rfl | rfl := quote <;> decide
    rw [List.flatMap_nil, List.nil_append, readText?_plain bare, if_pos rfl]
  | cons c text ih =>
    rw [List.flatMap_cons, List.append_assoc, readText?_escape quote, ih]
    rfl

theorem read?_encode_append (text behind : List Char) :
    read? (encode text ++ behind) = some (text, behind) := by
  have quote := mark_eq text
  rw [encode, List.cons_append, List.cons_append, List.append_assoc, List.singleton_append, read?,
    if_pos quote]
  exact readText?_flatMap_escape quote text behind

theorem isControl_of_mem_escape (quote : delimiter = single ∨ delimiter = double) {c d : Char}
    (mem : d ∈ escape delimiter c) : isControl d = false := by
  have visible : isControl delimiter = false := by
    obtain rfl | rfl := quote <;> rfl
  unfold escape at mem
  split_ifs at mem with backslash feed turn tab mark control <;>
    simp only [List.mem_cons, List.not_mem_nil, or_false] at mem
  · obtain rfl | rfl := mem <;> rfl
  · obtain rfl | rfl := mem <;> rfl
  · obtain rfl | rfl := mem <;> rfl
  · obtain rfl | rfl := mem <;> rfl
  · obtain rfl | rfl := mem
    · rfl
    · rw [mark, visible]
  · have less := isControl_lt control
    obtain rfl | rfl | rfl | rfl := mem
    · rfl
    · rfl
    · exact isControl_hexDigit (by omega)
    · exact isControl_hexDigit (by omega)
  · rw [mem]
    exact eq_false_of_ne_true control

theorem isControl_of_mem_encode {text : List Char} {c : Char} (mem : c ∈ encode text) :
    isControl c = false := by
  have quote := mark_eq text
  have visible : isControl (mark text) = false := by
    obtain eq | eq := quote <;> rw [eq] <;> rfl
  simp only [encode, List.mem_cons, List.mem_append, List.mem_flatMap, List.not_mem_nil, or_false] at mem
  obtain (rfl | ⟨d, -, mem⟩) | rfl := mem
  · exact visible
  · exact isControl_of_mem_escape quote mem
  · exact visible

end BlockComputer.Text.Quoted
