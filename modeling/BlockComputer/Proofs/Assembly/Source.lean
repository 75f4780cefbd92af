import BlockComputer.Proofs.Assembly.Acceptance

/-!
Programs, line by line.

A text is its lines with line feeds between them, and the words of a program are those of its lines, so the
words of texts on top of each other are put behind each other. Lines without an instruction can stand
anywhere. A program fails at its first faulty line, and always with an error.
-/

namespace BlockComputer

namespace Text

def joinLines (ls : List (List Char)) : List Char :=
  ['\n'].intercalate ls

theorem lines_cons (c : Char) (text : List Char) : lines (c :: text) = consLine c (lines text) := rfl

theorem lines_ne_nil (text : List Char) : lines text ≠ [] := by
  cases text with
  | nil => exact List.cons_ne_nil _ _
  | cons c text =>
    rw [lines_cons]
    unfold consLine
    split
    · exact List.cons_ne_nil _ _
    · split <;> exact List.cons_ne_nil _ _

theorem consLine_append (c : Char) {ls : List (List Char)} (some : ls ≠ []) (ls' : List (List Char)) :
    consLine c (ls ++ ls') = consLine c ls ++ ls' := by
  obtain ⟨l, others, rfl⟩ := List.exists_cons_of_ne_nil some
  unfold consLine
  split <;> rfl

theorem lines_append (s t : List Char) : lines (s ++ '\n' :: t) = lines s ++ lines t := by
  induction s with
  | nil => simp [lines, consLine]
  | cons c s ih => rw [List.cons_append, lines_cons, ih, consLine_append c (lines_ne_nil s), lines_cons]

theorem lines_of_notMem {line : List Char} (single : '\n' ∉ line) : lines line = [line] := by
  induction line with
  | nil => rfl
  | cons c line ih =>
    obtain ⟨other, rest⟩ := List.ne_and_not_mem_of_not_mem_cons single
    rw [lines_cons, ih rest, consLine, if_neg (Ne.symm other)]

theorem lines_joinLines {ls : List (List Char)} (some : ls ≠ []) (single : ∀ l ∈ ls, '\n' ∉ l) :
    lines (joinLines ls) = ls := by
  induction ls with
  | nil => exact absurd rfl some
  | cons l ls ih =>
    obtain ⟨first, others⟩ := List.forall_mem_cons.1 single
    cases ls with
    | nil => simpa [joinLines] using lines_of_notMem first
    | cons l' ls =>
      have joined : joinLines (l :: l' :: ls) = l ++ '\n' :: joinLines (l' :: ls) := by
        simp [joinLines, List.intercalate]
      rw [joined, lines_append, lines_of_notMem first, ih (List.cons_ne_nil _ _) others]
      rfl

/-- Joining gives the text back, so the lines of a text are what stands between its line feeds. -/
theorem joinLines_lines (text : List Char) : joinLines (lines text) = text := by
  induction text with
  | nil => rfl
  | cons c text ih =>
    obtain ⟨l, others, same⟩ := List.exists_cons_of_ne_nil (lines_ne_nil text)
    rw [same] at ih
    rw [lines_cons, same, consLine]
    split
    · next feed => simp [joinLines, List.intercalate, feed, ← ih]
    · cases others <;> simp_all [joinLines, List.intercalate]

theorem notMem_of_mem_lines {text line : List Char} (mem : line ∈ lines text) : '\n' ∉ line := by
  induction text generalizing line with
  | nil =>
    obtain rfl := List.mem_singleton.1 mem
    exact List.not_mem_nil
  | cons c text ih =>
    obtain ⟨l, others, same⟩ := List.exists_cons_of_ne_nil (lines_ne_nil text)
    rw [lines_cons, same, consLine] at mem
    rw [same] at ih
    split at mem
    · rcases List.mem_cons.1 mem with rfl | mem
      · exact List.not_mem_nil
      · exact ih mem
    · next other =>
      rcases List.mem_cons.1 mem with rfl | mem
      · exact List.not_mem_cons_of_ne_of_not_mem (Ne.symm other) (ih List.mem_cons_self)
      · exact ih (List.mem_cons_of_mem _ mem)

end Text

namespace Assembly

def encodeLines (ls : List (List Char)) : Except Failure (List UInt16) :=
  ((ls.map Text.trim).filter isInstruction).mapM encodeLine

def numbered (ls : List (List Char)) : List (Nat × List Char) :=
  ls.mapIdx fun i line => (i + 1, Text.trim line)

theorem map_snd_numbered (ls : List (List Char)) : (numbered ls).map Prod.snd = ls.map Text.trim :=
  List.ext_getElem (by simp [numbered]) (by simp [numbered])

theorem encodeProgram_eq (source : List Char) : encodeProgram source = encodeLines (Text.lines source) := by
  have plain : (instructionLines source).map Prod.snd =
      ((Text.lines source).map Text.trim).filter isInstruction := by
    rw [← map_snd_numbered, List.filter_map]
    rfl
  rw [encodeLines, ← plain, List.mapM_map]
  rfl

theorem encodeLines_append (ls ls' : List (List Char)) : encodeLines (ls ++ ls') = do
    let words ← encodeLines ls
    let words' ← encodeLines ls'
    return words ++ words' := by
  simp only [encodeLines, List.map_append, List.filter_append, List.mapM_append]

theorem encodeProgram_append (s t : List Char) : encodeProgram (s ++ '\n' :: t) = do
    let words ← encodeProgram s
    let words' ← encodeProgram t
    return words ++ words' := by
  simp only [encodeProgram_eq, Text.lines_append, encodeLines_append]

/-- The line is blank, or its first character that is not blank is a number sign. -/
def IsSkipped (line : List Char) : Prop :=
  ∀ c ∈ (line.dropWhile Text.isBlank).head?, c = '#'

theorem isInstruction_trim_of_isSkipped {line : List Char} (skipped : IsSkipped line) :
    isInstruction (Text.trim line) = false := by
  unfold IsSkipped at skipped
  rw [Text.trim]
  cases content : line.dropWhile Text.isBlank with
  | nil => rfl
  | cons c rest =>
    obtain rfl : c = '#' := skipped c (by rw [content]; rfl)
    have kept : Text.dropEnd Text.isBlank ('#' :: rest) = '#' :: Text.dropEnd Text.isBlank rest := by
      have solid : Text.isBlank '#' = false := by decide
      simp [Text.dropEnd, List.dropWhile_append, solid]
    rw [kept]
    rfl

theorem encodeLines_of_isSkipped {ls : List (List Char)} (skipped : ∀ l ∈ ls, IsSkipped l) :
    encodeLines ls = .ok [] := by
  have none : (ls.map Text.trim).filter isInstruction = [] := by
    simpa [List.filter_eq_nil_iff] using fun l mem => isInstruction_trim_of_isSkipped (skipped l mem)
  rw [encodeLines, none]
  rfl

theorem encodeProgram_joinLines {ls : List (List Char)} (single : ∀ l ∈ ls, '\n' ∉ l) :
    encodeProgram (Text.joinLines ls) = encodeLines ls := by
  rw [encodeProgram_eq]
  by_cases some : ls = []
  · subst some
    rfl
  · rw [Text.lines_joinLines some single]

theorem encodeProgram_insert {before extra after : List (List Char)}
    (single : ∀ l ∈ before ++ extra ++ after, '\n' ∉ l) (skipped : ∀ l ∈ extra, IsSkipped l) :
    encodeProgram (Text.joinLines (before ++ extra ++ after)) =
      encodeProgram (Text.joinLines (before ++ after)) := by
  have kept : ∀ l ∈ before ++ after, '\n' ∉ l := fun l mem => single l <| by
    rcases List.mem_append.1 mem with mem | mem <;> simp [mem]
  rw [encodeProgram_joinLines single, encodeProgram_joinLines kept]
  simp only [encodeLines_append, encodeLines_of_isSkipped skipped]
  cases encodeLines before <;> cases encodeLines after <;> simp [bind, Except.bind, pure, Except.pure]

/-- A line that cannot be encoded has a fault, so nothing crashes. -/
theorem encodeLine_cases (line : List Char) :
    (∃ word, encodeLine line = .ok word) ∨ ∃ cause, encodeLine line = .error (.error cause) := by
  rcases accepted_or_hasFault line with ⟨_, _, accepted⟩ | ⟨cause, fault⟩
  · exact .inl accepted.exists_word
  · exact .inr ⟨cause, fault.encodeLine_eq⟩

theorem exists_of_mem_mapM {α β ε : Type} {f : α → Except ε β} {xs : List α} {ys : List β}
    (traversed : xs.mapM f = .ok ys) {y : β} (mem : y ∈ ys) : ∃ x ∈ xs, f x = .ok y := by
  have each := mapM_eq_ok_iff.1 traversed
  clear traversed
  induction each with
  | nil => cases mem
  | cons ok _ ih =>
    rcases List.mem_cons.1 mem with rfl | mem
    · exact ⟨_, List.mem_cons_self, ok⟩
    · obtain ⟨x, inside, ok⟩ := ih mem
      exact ⟨x, List.mem_cons_of_mem _ inside, ok⟩

theorem exists_of_encodeProgram {source : List Char} {words : List UInt16}
    (encoded : encodeProgram source = .ok words) {word : UInt16} (mem : word ∈ words) :
    ∃ line ∈ Text.lines source, encodeLine (Text.trim line) = .ok word := by
  rw [encodeProgram_eq] at encoded
  obtain ⟨line, inside, ok⟩ := exists_of_mem_mapM encoded mem
  obtain ⟨raw, listed, rfl⟩ := List.mem_map.1 (List.mem_of_mem_filter inside)
  exact ⟨raw, listed, ok⟩

/-- The line behind these holds an instruction, and it is the first one that cannot be encoded. -/
structure FailsBehind (before : List (List Char)) (words : List UInt16) (line : List Char) (cause : Error) :
    Prop where
  before : encodeLines before = .ok words
  instruction : isInstruction (Text.trim line)
  fails : encodeLine (Text.trim line) = .error (.error cause)

theorem encodeLines_eq_error_iff {ls : List (List Char)} {e : Failure} : encodeLines ls = .error e ↔
    ∃ before words line after cause, ls = before ++ line :: after ∧ FailsBehind before words line cause ∧
      e = .error cause := by
  constructor
  · intro failed
    obtain ⟨before, line, after, split, good, bad⟩ := mapM_eq_error_iff.1 failed
    -- the traversal sees trimmed lines with instructions, so the failure is traced back to its line
    obtain ⟨front, back, cut, rfl, rest⟩ := List.filter_eq_append_iff.1 split
    obtain ⟨gap, tail, rfl, skipped, instruction, -⟩ := List.filter_eq_cons_iff.1 rest
    obtain ⟨front', behind, rfl, rfl, cut'⟩ := List.map_eq_append_iff.1 cut
    obtain ⟨gap', behind', rfl, rfl, cut''⟩ := List.map_eq_append_iff.1 cut'
    obtain ⟨line', tail', rfl, rfl, -⟩ := List.map_eq_cons_iff.1 cut''
    obtain ⟨cause, rfl⟩ : ∃ cause, e = .error cause := by
      rcases encodeLine_cases (Text.trim line') with ⟨word, ok⟩ | ⟨cause, error⟩
      · rw [bad] at ok
        cases ok
      · exact ⟨cause, Except.error.inj (bad.symm.trans error)⟩
    obtain ⟨words, encoded⟩ : ∃ words, encodeLines front' = .ok words := by
      cases encoded : encodeLines front' with
      | ok words => exact ⟨words, rfl⟩
      | error e =>
        obtain ⟨_, line, _, split', -, bad'⟩ := mapM_eq_error_iff.1 encoded
        obtain ⟨word, ok⟩ := good line (split' ▸ List.mem_append_cons_self)
        rw [bad'] at ok
        cases ok
    have empty : encodeLines gap' = .ok [] := by
      rw [encodeLines, List.filter_eq_nil_iff.2 skipped]
      rfl
    refine ⟨front' ++ gap', words, line', tail', cause, by simp, ⟨?_, instruction, bad⟩, rfl⟩
    rw [encodeLines_append, encoded, empty]
    simp [bind, Except.bind, pure, Except.pure]
  · rintro ⟨before, words, line, after, cause, rfl, ⟨good, instruction, bad⟩, rfl⟩
    rw [encodeLines_append, good, encodeLines, List.map_cons, List.filter_cons_of_pos instruction,
      List.mapM_cons, bad]
    rfl

end Assembly

end BlockComputer
