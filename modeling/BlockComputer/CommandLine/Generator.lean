import BlockComputer.Assembly.Program
import BlockComputer.CommandLine.Host
import BlockComputer.Machine.Build

/-!
The generator: builds the machine, writes its listing, and hands it to a backend.

What the options say wins over the settings file, and the settings file over the defaults. The listing is
written before a backend is started.
-/

namespace BlockComputer.CommandLine.Generator

/-- What the options of a call ask for; of an option given twice the last one counts. -/
structure Options where
  outputDirectory : Option String := none
  name : Option String := none
  settingsFile : Option String := none
  backend : Option String := none
  programFile : Option String := none
  verbose : Bool := false
deriving DecidableEq, Repr

inductive Request where
  | generate (options : Options)
  | help
  | unknownOption (argument : String)
  | missingValue (option : String)
deriving DecidableEq, Repr

def Options.withValue? (o : Options) (name value : String) : Option Options :=
  match name with
  | "-o" | "--output" => some { o with outputDirectory := some value }
  | "--name" => some { o with name := some value }
  | "--config" => some { o with settingsFile := some value }
  | "--backend" => some { o with backend := some value }
  | "--program" => some { o with programFile := some value }
  | _ => none

def takesValue (name : String) : Bool :=
  (Options.withValue? {} name "").isSome

/-- Reads arguments from left to right; the first one that settles the request ends the reading. -/
def Request.parse (o : Options) : List String → Request
  | [] => .generate o
  | argument :: rest =>
    if takesValue argument then
      match rest with
      | [] => .missingValue argument
      | value :: others => parse ((o.withValue? argument value).getD o) others
    else if argument = "-v" ∨ argument = "--verbose" then parse { o with verbose := true } rest
    else if argument = "-h" ∨ argument = "--help" then .help
    else .unknownOption argument

def usage (program : String) : List String :=
  [s!"Usage: {program} [options]",
   "",
   "Options:",
   "  -o, --output <dir>     Listing directory (default: generated)",
   "  --name <name>          Base file name (default: computer)",
   "  --config <file>        TOML configuration file",
   "  --backend <exe>        Listing-to-schematic converter",
   "  --program <file>       Assembly source preloaded at address 0",
   "  -v, --verbose          Verbose output",
   "  -h, --help             Show this help message"]

variable {m : Type → Type} [Monad m]

def giveUpWith {α : Type} (f : Failure) : RunT m α :=
  giveUp s!"Error: {describe f}"

def require {α : Type} : Except Failure α → RunT m α
  | .ok a => return a
  | .error f => giveUpWith f

def Options.apply (o : Options) (s : Settings) : Settings :=
  { s with
    outputDirectory := o.outputDirectory.getD s.outputDirectory
    name := o.name.getD s.name
    backend := o.backend <|> s.backend }

def loadSettings (host : Host m) (o : Options) : RunT m Settings :=
  match o.settingsFile with
  | none => return o.apply {}
  | some path => do
    match ← ask (host.readText path) with
    | .error reason => giveUpWith (.error (.settingsUnreadable path reason))
    | .ok text => return o.apply (← require (Settings.read host.readDocument text))

def loadProgram (host : Host m) (o : Options) : RunT m (List UInt16) :=
  match o.programFile with
  | none => return []
  | some path => do
    match ← ask (host.readText path) with
    | .error reason => giveUp s!"Error reading '{path}': {reason.message}"
    | .ok source =>
      match Assembly.encodeProgram source.toList with
      | .ok words => return words
      | .error f => giveUp s!"Error in '{path}': {describe f}"

def onFiles {α : Type} (step : m (Except FileError α)) : RunT m α := do
  match ← ask step with
  | .ok a => return a
  | .error reason => giveUpWith (.error (.fileUnusable reason))

def writeListing (host : Host m) (s : Settings) (listing : Listing) : RunT m Unit := do
  onFiles (host.createParents s.listingPath)
  onFiles (host.writeText s.listingPath listing.render)

def runBackend (host : Host m) (s : Settings) (backend : String) : RunT m Unit := do
  onFiles (host.createParents s.schematicPath)
  match ← ask (host.runProgram backend [s.listingPath, s.schematicPath]) with
  | .error reason => giveUpWith (.error (.backendNotStarted backend reason))
  | .ok status =>
    if status ≠ 0 then giveUpWith (.error (.backendFailed backend status))

def generate (host : Host m) (s : Settings) (words : List UInt16) (verbose : Bool) :
    RunT m Unit := do
  let listing ← require (Machine.withPrintCard words)
  writeListing host s listing
  if verbose then
    printLine
      s!"Wrote {listing.length} blocks ({words.length} program words) to {s.listingPath}"
  match s.backend with
  | none => return
  | some backend => do
    runBackend host s backend
    if verbose then printLine s!"Schematic written to {s.schematicPath}"

def run (host : Host m) (program : String) (arguments : List String) : m Report := report do
  match Request.parse {} arguments with
  | .help => printLines (usage program)
  | .missingValue option => giveUp s!"Error: {option} requires a value"
  | .unknownOption argument =>
    printLines (usage program)
    giveUp s!"Error: Unknown option '{argument}'"
  | .generate options => do
    let settings ← loadSettings host options
    let words ← loadProgram host options
    generate host settings words options.verbose

end BlockComputer.CommandLine.Generator
