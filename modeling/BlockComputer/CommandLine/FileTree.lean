import BlockComputer.CommandLine.Host
import BlockComputer.Text.Path
import BlockComputer.Toml.Document

/-!
A file system as a value, and a host that runs on it.

Paths are walked part by part from the root or from the working directory. Each part but the last has to
be a directory that exists. Names and paths have a greatest length.
-/

namespace BlockComputer.CommandLine

inductive FileNode where
  | directory (entries : List (String × FileNode))
  | file (text : Option String)
  | program (status : Nat)

namespace FileNode

def put : FileNode → List String → FileNode → FileNode
  | _, [], new => new
  | .directory entries, name :: rest, new =>
    let old := (entries.lookup name).getD (.directory [])
    .directory ((name, old.put rest new) :: entries.filter (·.1 != name))
  | node, _ :: _, _ => node

mutual

def texts : FileNode → List (List String × String)
  | .directory entries => textsIn entries
  | .file (some text) => [([], text)]
  | _ => []

def textsIn : List (String × FileNode) → List (List String × String)
  | [] => []
  | (name, node) :: others =>
    (texts node).map (fun (place, text) => (name :: place, text)) ++ textsIn others

end

end FileNode

/-- All files, and the names that lead to the directory in which relative paths start. -/
structure FileTree where
  root : FileNode
  workingDirectory : List String

/-- The names from the root to a place, each with what stands there, the last one first. -/
abbrev Trail : Type :=
  List (String × Option FileNode)

def Trail.place (trail : Trail) : List String :=
  (trail.map Prod.fst).reverse

abbrev FileM : Type → Type :=
  ExceptT FileError (StateM FileTree)

namespace FileTree

def nameLimit : Nat := 255

def pathLimit : Nat := 4096

def nodeAt (t : FileTree) : Trail → Option FileNode
  | [] => some t.root
  | (_, node) :: _ => node

def put (t : FileTree) (trail : Trail) (node : FileNode) : FileTree :=
  { t with root := t.root.put trail.place node }

def walk (t : FileTree) (trail : Trail) : List String → Except FileError Trail
  | [] => .ok trail
  | name :: rest =>
    match t.nodeAt trail with
    | none => .error .notFound
    | some (.directory entries) =>
      if name = "." then t.walk trail rest
      else if name = ".." then t.walk trail.tail rest
      else if nameLimit < name.utf8ByteSize then .error .nameTooLong
      else t.walk ((name, entries.lookup name) :: trail) rest
    | some _ => .error .notDirectory

def stepsFromRoot (t : FileTree) (path : String) : List String :=
  if Text.Path.isAbsolute path then Text.Path.steps path
  else t.workingDirectory ++ Text.Path.steps path

def locate (t : FileTree) (path : String) : Except FileError Trail :=
  if path.contains '\x00' then .error .nulInName
  else if path.isEmpty then .error .notFound
  else if pathLimit ≤ path.utf8ByteSize then .error .nameTooLong
  else t.walk [] (t.stepsFromRoot path)

def readText (path : String) : FileM String := do
  let t ← get
  match t.nodeAt (← t.locate path) with
  | none => throw .notFound
  | some (.directory _) => throw .isDirectory
  | some (.file (some text)) => return text
  | some _ => throw .notText

def writeText (path text : String) : FileM Unit := do
  let t ← get
  let trail ← t.locate path
  match t.nodeAt trail with
  | some (.directory _) => throw .isDirectory
  | some (.program _) => throw .permissionDenied
  | _ => set (t.put trail (.file (some text)))

def makeDirectory (path : String) : FileM Unit := do
  let t ← get
  let trail ← t.locate path
  match t.nodeAt trail with
  | none => set (t.put trail (.directory []))
  | some _ => throw .alreadyExists

def hasDirectory (t : FileTree) (path : String) : Bool :=
  match t.locate path with
  | .ok trail =>
    match t.nodeAt trail with
    | some (.directory _) => true
    | _ => false
  | .error _ => false

def ensureDirectory (path : String) : FileM Unit := do
  try makeDirectory path
  catch e => unless (← get).hasDirectory path do throw e

/-- Makes the first directory of a list in which every directory lies in the next one, and the others
where they are missing. -/
def ensureDirectories : List String → FileM Unit
  | [] => return
  | path :: outer => do
    try ensureDirectory path
    catch
      | .notFound => do
        ensureDirectories outer
        ensureDirectory path
      | e => throw e

def createParents (path : String) : FileM Unit :=
  ensureDirectories (Text.Path.enclosing path)

/-- Finds a program; a name without a slash is looked up among the programs of the system. -/
def locateProgram (t : FileTree) (path : String) : Except FileError Trail :=
  if path.contains '\x00' then .error .nulInArgument
  else if path.isEmpty || path.contains '/' then t.locate path
  else t.walk [] ["bin", path]

def runProgram (path : String) : FileM Nat := do
  let t ← get
  match t.nodeAt (← t.locateProgram path) with
  | none => throw .notFound
  | some (.program status) => return status
  | some _ => throw .permissionDenied

def host : Host (StateM FileTree) where
  readText path := (readText path).run
  createParents path := (createParents path).run
  writeText path text := (writeText path text).run
  runProgram path _ := (runProgram path).run
  readDocument := Toml.readDocument

end FileTree

end BlockComputer.CommandLine
