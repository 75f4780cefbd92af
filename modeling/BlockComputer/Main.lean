import BlockComputer.CommandLine.Assembler
import BlockComputer.CommandLine.Generator
import BlockComputer.Text.Path
import BlockComputer.Toml.Document

/-!
The two command-line programs: the generator, and the assembler under a name that ends in `asm`.

Other programs cannot be started from here, so a backend is always reported as not started.
-/

namespace BlockComputer.CommandLine

def fileError : IO.Error → FileError
  | .noFileOrDirectory .. => .notFound
  | .permissionDenied .. => .permissionDenied
  | .alreadyExists .. => .alreadyExists
  | .inappropriateType .. => .isDirectory
  | e => .other (toString e)

def attemptFile {α : Type} (step : IO α) : IO (Except FileError α) := do
  try return .ok (← step)
  catch e => return .error (fileError e)

def readFile (path : String) : IO (Except FileError String) := do
  match ← attemptFile (IO.FS.readBinFile path) with
  | .error reason => return .error reason
  | .ok bytes =>
    match String.fromUTF8? bytes with
    | some text => return .ok text
    | none => return .error .notText

def makeParents (path : String) : IO (Except FileError Unit) :=
  match Text.Path.enclosing path with
  | [] => return .ok ()
  | parent :: _ => attemptFile (IO.FS.createDirAll parent)

def diskHost : Host IO where
  readText := readFile
  createParents := makeParents
  writeText path text := attemptFile (IO.FS.writeFile path text)
  runProgram _ _ := return .error (.other "programs cannot be started")
  readDocument := Toml.readDocument

end BlockComputer.CommandLine

open BlockComputer.CommandLine in
def main (arguments : List String) : IO UInt32 := do
  let program := ((← IO.appPath).fileName).getD "generator"
  let report ←
    if program.endsWith "asm" then Assembler.run diskHost program arguments
    else Generator.run diskHost program arguments
  IO.print report.output
  IO.eprint report.errors
  return report.code
