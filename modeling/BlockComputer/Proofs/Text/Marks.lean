import BlockComputer.Proofs.Text.Quoted

/-!
The marks of a quoted text.

A character is escaped if a backslash stands in front of it that is not escaped itself. Inside a quoted text
every mark of its kind is escaped, and the mark at its end is not, so a quoted text can be told from what
stands around it, and undoing the escapes between its marks gives back the text that was quoted.
-/

namespace BlockComputer.Text.Quoted

/-- A character behind this text is escaped. -/
def escapesNext (before : List Char) : Bool :=
  before.foldl (fun escaped c => !escaped && c == '\\') false

/-- The text that a quoted one stands for, if it is one and nothing stands behind it. -/
def unquote? (quoted : String) : Option String :=
  match read? quoted.toList with
  | some (text, []) => some (String.ofList text)
  | _ => none

theorem escapesNext_append {before : List Char} (closed : escapesNext before = false) (after : List Char) :
    escapesNext (before ++ after) = escapesNext after := by
  rw [escapesNext] at closed
  rw [escapesNext, List.foldl_append, closed]
  rfl

theorem escapesNext_backslash (letter : Char) (rest : List Char) :
    escapesNext ('\\' :: letter :: rest) = escapesNext rest := rfl

theorem escapesNext_of_notMem {text : List Char} (bare : '\\' ∉ text) : escapesNext text = false := by
  induction text with
  | nil => rfl
  | cons c text ih =>
    have other : (c == '\\') = false := beq_eq_false_iff_ne.2 fun same => bare (same ▸ List.mem_cons_self)
    have first : escapesNext [c] = false := other
    exact (escapesNext_append first text).trans (ih fun mem => bare (List.mem_cons_of_mem c mem))

theorem hexDigit_notMem {n : Nat} (less : n < 16) : hexDigit n ∉ ['\\', single, double] := by
  revert n
  decide

section escape

variable {delimiter : Char} (quote : delimiter = single ∨ delimiter = double)

include quote

theorem escape_cases (c : Char) : (escape delimiter c = [c] ∧ c ≠ '\\' ∧ c ≠ delimiter) ∨
    ∃ letter digits, escape delimiter c = '\\' :: letter :: digits ∧ '\\' ∉ digits ∧ delimiter ∉ digits := by
  have listed : delimiter ∈ ['\\', single, double] := by
    obtain rfl | rfl := quote <;> decide
  unfold escape
  split_ifs with backslash feed turn tab mark control
  · exact .inr ⟨_, [], rfl, List.not_mem_nil, List.not_mem_nil⟩
  · exact .inr ⟨_, [], rfl, List.not_mem_nil, List.not_mem_nil⟩
  · exact .inr ⟨_, [], rfl, List.not_mem_nil, List.not_mem_nil⟩
  · exact .inr ⟨_, [], rfl, List.not_mem_nil, List.not_mem_nil⟩
  · exact .inr ⟨_, [], rfl, List.not_mem_nil, List.not_mem_nil⟩
  · have less := isControl_lt control
    have digits {d : Char} (special : d ∈ ['\\', single, double]) :
        d ∉ [hexDigit (c.toNat / 16), hexDigit (c.toNat % 16)] := by
      intro mem
      obtain rfl | rfl : d = hexDigit (c.toNat / 16) ∨ d = hexDigit (c.toNat % 16) := by simpa using mem
      · exact hexDigit_notMem (by omega) special
      · exact hexDigit_notMem (by omega) special
    exact .inr ⟨_, _, rfl, digits List.mem_cons_self, digits listed⟩
  · exact .inl ⟨rfl, backslash, mark⟩

theorem escapesNext_escape (c : Char) : escapesNext (escape delimiter c) = false := by
  rcases escape_cases quote c with ⟨plain, bare, -⟩ | ⟨letter, digits, pair, bare, -⟩
  · rw [plain]
    exact escapesNext_of_notMem fun mem => bare (List.mem_singleton.1 mem).symm
  · rw [pair, escapesNext_backslash]
    exact escapesNext_of_notMem bare

theorem escapesNext_of_escape_eq {c : Char} {before after : List Char}
    (split : escape delimiter c = before ++ delimiter :: after) : escapesNext before := by
  have ne : delimiter ≠ '\\' := by
    obtain rfl | rfl := quote <;> decide
  rcases escape_cases quote c with ⟨plain, -, other⟩ | ⟨letter, digits, pair, -, free⟩
  · have mem : delimiter ∈ [c] := by rw [← plain, split]; exact List.mem_append_cons_self
    exact absurd (List.mem_singleton.1 mem).symm other
  · rw [pair] at split
    match before with
    | [] => exact absurd (List.cons.inj split).1.symm ne
    | [d] =>
      obtain rfl : '\\' = d := (List.cons.inj split).1
      rfl
    | d :: e :: before =>
      have digits_eq := (List.cons.inj (List.cons.inj split).2).2
      exact absurd (digits_eq ▸ List.mem_append_cons_self) free

theorem escapesNext_flatMap_escape (text : List Char) :
    escapesNext (text.flatMap (escape delimiter)) = false := by
  induction text with
  | nil => rfl
  | cons c text ih => rw [List.flatMap_cons, escapesNext_append (escapesNext_escape quote c), ih]

/-- The delimiter stands between the marks only where it is escaped. -/
theorem escapesNext_of_flatMap_eq {text before after : List Char}
    (split : text.flatMap (escape delimiter) = before ++ delimiter :: after) : escapesNext before := by
  induction text generalizing before with
  | nil => exact absurd split.symm (List.append_ne_nil_of_right_ne_nil _ (List.cons_ne_nil _ _))
  | cons c text ih =>
    rw [List.flatMap_cons] at split
    rcases List.append_eq_append_iff.1 split with ⟨later, rfl, others⟩ | ⟨middle, first, others⟩
    · rw [escapesNext_append (escapesNext_escape quote c)]
      exact ih others
    · cases middle with
      | nil =>
        have atStart : escapesNext [] := ih others.symm
        exact absurd atStart Bool.false_ne_true
      | cons d middle =>
        obtain rfl : delimiter = d := (List.cons.inj others).1
        exact escapesNext_of_escape_eq quote first

end escape

theorem mark_eq_double_iff (text : List Char) : mark text = double ↔ single ∈ text ∧ double ∉ text := by
  unfold mark
  split_ifs with chosen
  · exact iff_of_true rfl chosen
  · exact iff_of_false (by decide) chosen

theorem toList_quote (text : String) : (quote text).toList = encode text.toList :=
  String.toList_ofList

theorem unquote?_quote (text : String) : unquote? (quote text) = some text := by
  have read := read?_encode_append text.toList []
  rw [List.append_nil] at read
  rw [unquote?, toList_quote, read]
  exact congrArg some String.ofList_toList

/-- Every text is quoted between two marks of one kind, double ones exactly where it has a single mark and no
double one. The written form has no control character; inside, each mark of this kind is escaped, and the mark at
the end is not. Undoing the escapes gives the text back, so different texts are quoted differently. -/
theorem quotes_are_undone :
    (∀ text : String, ∃ (delimiter : Char) (inside : List Char),
      (quote text).toList = delimiter :: inside ++ [delimiter] ∧
      (delimiter = single ∨ delimiter = double) ∧
      (delimiter = double ↔ single ∈ text.toList ∧ double ∉ text.toList) ∧
      (∀ c ∈ (quote text).toList, 0x20 ≤ c.toNat ∧ c.toNat ≠ 0x7f) ∧
      (∀ before after, inside = before ++ delimiter :: after → escapesNext before) ∧
      escapesNext inside = false ∧
      unquote? (quote text) = some text) ∧
    Function.Injective quote := by
  refine ⟨fun text => ?_, fun text other same => ?_⟩
  · have kind := mark_eq text.toList
    refine ⟨_, _, toList_quote text, kind, mark_eq_double_iff _, fun c mem => ?_, fun before after split => ?_,
      escapesNext_flatMap_escape kind _, unquote?_quote text⟩
    · have visible := isControl_of_mem_encode (toList_quote text ▸ mem)
      simpa [isControl] using visible
    · exact escapesNext_of_flatMap_eq kind split
  · have read := congrArg unquote? same
    rw [unquote?_quote, unquote?_quote] at read
    exact Option.some.inj read

/-- A text with both marks, a backslash in front of a letter that could be an escape, and a line feed. -/
theorem quotes_are_undone_both_marks :
    ∃ (delimiter : Char) (inside : List Char),
      (quote "it's \"\\x27\"\n").toList = delimiter :: inside ++ [delimiter] ∧ delimiter = single ∧
      ['i', 't', '\\'] ++ single :: inside.drop 4 = inside ∧ escapesNext ['i', 't', '\\'] ∧
      unquote? (quote "it's \"\\x27\"\n") = some "it's \"\\x27\"\n" := by
  obtain ⟨delimiter, inside, written, kind, double_iff, -, escaped, -, undone⟩ :=
    quotes_are_undone.1 "it's \"\\x27\"\n"
  have other : delimiter ≠ double := fun same => absurd (double_iff.1 same) (by decide)
  obtain rfl := kind.resolve_right other
  have inside_eq : inside = "it\\'s \"\\\\x27\"\\n".toList := by
    have whole : (quote "it's \"\\x27\"\n").toList = single :: "it\\'s \"\\\\x27\"\\n".toList ++ [single] := by decide
    exact List.append_cancel_right (List.cons.inj (written.symm.trans whole)).2
  have split : ['i', 't', '\\'] ++ single :: inside.drop 4 = inside := by rw [inside_eq]; decide
  exact ⟨single, inside, written, rfl, split, escaped _ _ split.symm, undone⟩

end BlockComputer.Text.Quoted
