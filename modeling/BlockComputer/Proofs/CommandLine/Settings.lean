import BlockComputer.Settings

/-!
What a settings file says.

A settings file is a document in which the settings are strings; those that are missing have their defaults.
Any other file is malformed. This holds whatever reads the documents.
-/

namespace BlockComputer

namespace Settings

variable {document : Document} {name : String}

def textOf (document : Document) (name : String) : Option String :=
  (document.lookup name).join

def IsTextual (document : Document) (name : String) : Prop :=
  document.lookup name ≠ some none

/-- The entries of a settings file, and the defaults for those that are missing. -/
def ofDocument (document : Document) : Settings where
  outputDirectory := (textOf document "output_dir").getD "generated"
  name := (textOf document "name").getD "computer"
  schematicDirectory := (textOf document "schematic_dir").getD "schematics"
  backend := textOf document "backend"

theorem entry?_eq (textual : IsTextual document name) :
    entry? document name = .ok (textOf document name) := by
  unfold entry? textOf
  cases found : document.lookup name with
  | none => rfl
  | some entry =>
    cases entry with
    | none => exact absurd found textual
    | some text => rfl

theorem entry?_of_not_isTextual (other : ¬ IsTextual document name) :
    entry? document name = .error (.error .settingsMalformed) := by
  have found : document.lookup name = some none := Decidable.not_not.1 other
  unfold entry?
  rw [found]

def names : List String :=
  ["output_dir", "name", "schematic_dir", "backend"]

variable {readDocument : String → Option Document} {text : String}

theorem read_eq_ok (read : readDocument text = some document)
    (textual : ∀ name ∈ names, IsTextual document name) :
    Settings.read readDocument text = .ok (ofDocument document) := by
  simp only [names, List.forall_mem_cons] at textual
  obtain ⟨outputDirectory, name, schematicDirectory, backend, -⟩ := textual
  simp only [Settings.read, read, entry?_eq outputDirectory, entry?_eq name,
    entry?_eq schematicDirectory, entry?_eq backend]
  rfl

theorem entry?_bind {α : Type} (document : Document) (name : String)
    (next : Option String → Except Failure α) :
    entry? document name >>= next = .error (.error .settingsMalformed) ∨
      IsTextual document name ∧ entry? document name >>= next = next (textOf document name) := by
  by_cases textual : IsTextual document name
  · rw [entry?_eq textual]
    exact .inr ⟨textual, rfl⟩
  · rw [entry?_of_not_isTextual textual]
    exact .inl rfl

theorem read_cases (readDocument : String → Option Document) (text : String) :
    (∃ document, readDocument text = some document ∧ (∀ name ∈ names, IsTextual document name) ∧
      read readDocument text = .ok (ofDocument document)) ∨
        read readDocument text = .error (.error .settingsMalformed) := by
  unfold read
  cases readDocument text with
  | none => exact .inr rfl
  | some document =>
    rcases entry?_bind document "output_dir" _ with stop | ⟨outputDirectory, first⟩
    · exact .inr stop
    rcases entry?_bind document "name" _ with stop | ⟨name, second⟩
    · exact .inr (first.trans stop)
    rcases entry?_bind document "schematic_dir" _ with stop | ⟨schematicDirectory, third⟩
    · exact .inr (first.trans (second.trans stop))
    rcases entry?_bind document "backend" _ with stop | ⟨backend, last⟩
    · exact .inr (first.trans (second.trans (third.trans stop)))
    refine .inl ⟨document, rfl, ?_, first.trans (second.trans (third.trans last))⟩
    simp only [names, List.forall_mem_cons]
    exact ⟨outputDirectory, name, schematicDirectory, backend, List.forall_mem_nil _⟩

/-- A settings file is a document whose settings are strings. -/
theorem read_eq_ok_iff {s : Settings} : read readDocument text = .ok s ↔
    ∃ document, readDocument text = some document ∧ (∀ name ∈ names, IsTextual document name) ∧
      s = ofDocument document := by
  constructor
  · intro parsed
    rcases read_cases readDocument text with ⟨document, read, textual, settings⟩ | malformed
    · exact ⟨document, read, textual, Except.ok.inj (parsed.symm.trans settings)⟩
    · cases parsed.symm.trans malformed
  · rintro ⟨document, read, textual, rfl⟩
    exact read_eq_ok read textual

theorem read_ne_crash : read readDocument text ≠ .error .crash := by
  intro crashed
  rcases read_cases readDocument text with ⟨document, -, -, settings⟩ | malformed
  · cases crashed.symm.trans settings
  · cases crashed.symm.trans malformed

end Settings

end BlockComputer
