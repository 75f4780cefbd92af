import BlockComputer.Error
import BlockComputer.Text.Path

/-!
The settings of the generator: where the listing goes, what it is called, and what turns it into a
schematic. A settings file may leave out any of them, and may hold more than these.

How the text of a settings file is read as a document is left to a reader of documents.
-/

namespace BlockComputer

structure Settings where
  outputDirectory : String := "generated"
  name : String := "computer"
  schematicDirectory : String := "schematics"
  backend : Option String := none
deriving DecidableEq, Repr

/-- The names at the top of a document, each with its text, or without one if no string stands there. -/
abbrev Document : Type :=
  List (String × Option String)

namespace Settings

def entry? (document : Document) (name : String) : Except Failure (Option String) :=
  match document.lookup name with
  | none => .ok none
  | some (some text) => .ok (some text)
  | some none => .error (.error .settingsMalformed)

def read (readDocument : String → Option Document) (text : String) : Except Failure Settings := do
  match readDocument text with
  | none => .error (.error .settingsMalformed)
  | some document =>
    let defaults : Settings := {}
    let outputDirectory ← entry? document "output_dir"
    let name ← entry? document "name"
    let schematicDirectory ← entry? document "schematic_dir"
    let backend ← entry? document "backend"
    return {
      outputDirectory := outputDirectory.getD defaults.outputDirectory
      name := name.getD defaults.name
      schematicDirectory := schematicDirectory.getD defaults.schematicDirectory
      backend }

def listingPath (s : Settings) : String :=
  Text.Path.join s.outputDirectory s!"{s.name}.blk"

def schematicPath (s : Settings) : String :=
  Text.Path.join s.schematicDirectory s!"{s.name}.schem"

end Settings

end BlockComputer
