import BlockComputer.Proofs.Assembly.Source
import BlockComputer.Proofs.CommandLine.Arguments
import BlockComputer.Proofs.CommandLine.FileTree
import BlockComputer.Proofs.CommandLine.Outcome
import BlockComputer.Proofs.CommandLine.Settings
import BlockComputer.Proofs.Machine.Independence

/-!
The generator is all or nothing.

Whatever can be wrong with the arguments, the files or the program is found while nothing but reading has
been done. Then the listing is written, and only a listing that is written is handed to a backend. The host
is arbitrary: what it answers may depend on a state, and any use may change that state.
-/

namespace BlockComputer.CommandLine.Generator

open Assembly

variable {σ α : Type} {files : Host (StateM σ)} {flags : List Flag} {s t u : σ} {events later : List Event}

/-- What the file that an option names is read as, or the default if there is none. -/
inductive Loads (files : Host (StateM σ)) (flags : List Flag) (kind : OptionKind)
    (parse : String → Except Failure α) (default : α) (s : σ) : α → List Event → σ → Prop where
  | unnamed (named : lastValue kind flags = none) : Loads files flags kind parse default s default [] s
  | named {path text : String} {value : α} {t : σ} (named : lastValue kind flags = some path)
      (read : (files.readText path).run s = (.ok text, t)) (parsed : parse text = .ok value) :
      Loads files flags kind parse default s value [.read path (.ok text)] t

/-- The file that an option names cannot be read, or what it holds cannot be parsed. -/
inductive Spoils (files : Host (StateM σ)) (flags : List Flag) (kind : OptionKind)
    (parse : String → Except Failure α) (s : σ) : List Event → σ → Prop where
  | unread {path : String} {reason : FileError} {t : σ} (named : lastValue kind flags = some path)
      (refused : (files.readText path).run s = (.error reason, t)) :
      Spoils files flags kind parse s [.read path (.error reason)] t
  | malformed {path text : String} {cause : Error} {t : σ} (named : lastValue kind flags = some path)
      (read : (files.readText path).run s = (.ok text, t)) (failed : parse text = .error (.error cause)) :
      Spoils files flags kind parse s [.read path (.ok text)] t

theorem spoils_or_loads (files : Host (StateM σ)) (flags : List Flag) (kind : OptionKind)
    {parse : String → Except Failure α} (default : α) (total : ∀ text, parse text ≠ .error .crash) (s : σ) :
    (∃ events t, Spoils files flags kind parse s events t) ∨
      ∃ value events t, Loads files flags kind parse default s value events t := by
  cases named : lastValue kind flags with
  | none => exact .inr ⟨_, _, _, .unnamed named⟩
  | some path =>
    obtain ⟨answer, t, ran⟩ : ∃ answer t, (files.readText path).run s = (answer, t) := ⟨_, _, rfl⟩
    cases answer with
    | error reason => exact .inl ⟨_, _, .unread named ran⟩
    | ok text =>
      cases parsed : parse text with
      | ok value => exact .inr ⟨_, _, _, .named named ran parsed⟩
      | error f =>
        cases f with
        | crash => exact absurd parsed (total text)
        | error cause => exact .inl ⟨_, _, .malformed named ran parsed⟩

def assembled (source : String) : Except Failure (List UInt16) :=
  encodeProgram source.toList

theorem assembled_ne_crash (source : String) : assembled source ≠ .error .crash := by
  intro crashed
  rw [assembled, encodeProgram_eq] at crashed
  obtain ⟨before, words, line, after, cause, -, -, same⟩ := encodeLines_eq_error_iff.1 crashed
  cases same

/-- What the settings file says, and then the words of the program. -/
inductive Gathers (files : Host (StateM σ)) (flags : List Flag) (s : σ) :
    Settings → List UInt16 → List Event → σ → Prop where
  | intro {base : Settings} {words : List UInt16} {events later : List Event} {t u : σ}
      (settings : Loads files flags .settings (Settings.read files.readDocument) {} s base events t)
      (program : Loads files flags .program assembled [] t words later u) :
      Gathers files flags s base words (events ++ later) u

/-- What keeps the generator from a listing. -/
inductive Fault (files : Host (StateM σ)) (flags : List Flag) (s : σ) :
    Ending → List Event → σ → Prop where
  | unknown (argument : String) : Fault files flags s (.unknown argument) [] s
  | missing (option : String) : Fault files flags s (.missing option) [] s
  | settings {events : List Event} {t : σ}
      (spoils : Spoils files flags .settings (Settings.read files.readDocument) s events t) :
      Fault files flags s .complete events t
  | program {base : Settings} {events later : List Event} {t u : σ}
      (settings : Loads files flags .settings (Settings.read files.readDocument) {} s base events t)
      (spoils : Spoils files flags .program assembled t later u) :
      Fault files flags s .complete (events ++ later) u
  | machine {base : Settings} {words : List UInt16} {events : List Event} {t : σ} {cause : Error}
      (gathers : Gathers files flags s base words events t)
      (refused : Machine.withPrintCard words = .error (.error cause)) :
      Fault files flags s .complete events t

/-- Without a fault the machine is built. -/
theorem fault_or_gathers (files : Host (StateM σ)) (flags : List Flag) (s : σ) :
    (∃ events t, Fault files flags s .complete events t) ∨
      ∃ base words listing events t, Gathers files flags s base words events t ∧
        Machine.withPrintCard words = .ok listing := by
  rcases spoils_or_loads files flags .settings {} (fun _ => Settings.read_ne_crash) s with
    ⟨events, t, spoils⟩ | ⟨base, events, t, settings⟩
  · exact .inl ⟨_, _, .settings spoils⟩
  rcases spoils_or_loads files flags .program [] assembled_ne_crash t with
    ⟨later, u, spoils⟩ | ⟨words, later, u, program⟩
  · exact .inl ⟨_, _, .program settings spoils⟩
  rcases Nat.lt_or_ge Machine.Layout.memoryWords words.length with long | fits
  · exact .inl ⟨_, _, .machine ⟨settings, program⟩ (Machine.withPrintCard_of_long long)⟩
  · obtain ⟨listing, built⟩ := Machine.exists_withPrintCard_eq_ok fits
    exact .inr ⟨base, words, listing, _, u, ⟨settings, program⟩, built⟩

theorem Loads.isRead {kind : OptionKind} {parse : String → Except Failure α} {default value : α}
    (loads : Loads files flags kind parse default s value events t) : ∀ event ∈ events, event.IsRead := by
  cases loads with
  | unnamed => exact List.forall_mem_nil _
  | named => exact List.forall_mem_singleton.2 ⟨_, _, rfl⟩

theorem Spoils.isRead {kind : OptionKind} {parse : String → Except Failure α}
    (spoils : Spoils files flags kind parse s events t) : ∀ event ∈ events, event.IsRead := by
  cases spoils <;> exact List.forall_mem_singleton.2 ⟨_, _, rfl⟩

theorem Gathers.isRead {base : Settings} {words : List UInt16}
    (gathers : Gathers files flags s base words events t) : ∀ event ∈ events, event.IsRead := by
  obtain ⟨settings, program⟩ := gathers
  exact List.forall_mem_append.2 ⟨settings.isRead, program.isRead⟩

theorem Fault.isRead {ending : Ending} (fault : Fault files flags s ending events t) :
    ∀ event ∈ events, event.IsRead := by
  cases fault with
  | unknown | missing => exact List.forall_mem_nil _
  | settings spoils => exact spoils.isRead
  | program settings spoils => exact List.forall_mem_append.2 ⟨settings.isRead, spoils.isRead⟩
  | machine gathers => exact gathers.isRead

theorem fault_or_gathers_of_ne_help {ending : Ending} (other : ending ≠ .help) (files : Host (StateM σ))
    (flags : List Flag) (s : σ) : (∃ events t, Fault files flags s ending events t) ∨
      ending = .complete ∧ ∃ base words listing events t, Gathers files flags s base words events t ∧
        Machine.withPrintCard words = .ok listing := by
  cases ending with
  | help => exact absurd rfl other
  | missing option => exact .inl ⟨_, _, .missing option⟩
  | unknown argument => exact .inl ⟨_, _, .unknown argument⟩
  | complete => exact (fault_or_gathers files flags s).imp_right fun gathers => ⟨rfl, gathers⟩

def chosen (flags : List Flag) (base : Settings) : Settings where
  outputDirectory := (lastValue .output flags).getD base.outputDirectory
  name := (lastValue .name flags).getD base.name
  schematicDirectory := base.schematicDirectory
  backend := (lastValue .backend flags).or base.backend

theorem apply_withFlags (flags : List Flag) (base : Settings) :
    (Options.withFlags {} flags).apply base = chosen flags base := by
  simp [Options.apply, Options.withFlags, chosen]

/-- What comes behind a listing that is written: the backend, if there is one, runs on it. The number is the
exit code. -/
inductive Finishes (files : Host (StateM σ)) (c : Settings) (s : σ) : UInt32 → List Event → σ → Prop where
  | alone (unnamed : c.backend = none) : Finishes files c s 0 [] s
  | unplaced {backend : String} {reason : FileError} {t : σ} (named : c.backend = some backend)
      (refused : (files.createParents c.schematicPath).run s = (.error reason, t)) :
      Finishes files c s 1 [.made c.schematicPath (.error reason)] t
  | failed {backend : String} {answer : Except FileError Nat} {t u : σ} (named : c.backend = some backend)
      (made : (files.createParents c.schematicPath).run s = (.ok (), t))
      (ran : (files.runProgram backend [c.listingPath, c.schematicPath]).run t = (answer, u))
      (failed : answer ≠ .ok 0) :
      Finishes files c s 1 [.made c.schematicPath (.ok ()),
        .started backend [c.listingPath, c.schematicPath] answer] u
  | succeeded {backend : String} {t u : σ} (named : c.backend = some backend)
      (made : (files.createParents c.schematicPath).run s = (.ok (), t))
      (ran : (files.runProgram backend [c.listingPath, c.schematicPath]).run t = (.ok 0, u)) :
      Finishes files c s 0 [.made c.schematicPath (.ok ()),
        .started backend [c.listingPath, c.schematicPath] (.ok 0)] u

/-- The listing is written to its path in front of all else; if that is refused, nothing is started. -/
inductive Delivers (files : Host (StateM σ)) (c : Settings) (text : String) (s : σ) :
    UInt32 → List Event → σ → Prop where
  | unplaced {reason : FileError} {t : σ}
      (refused : (files.createParents c.listingPath).run s = (.error reason, t)) :
      Delivers files c text s 1 [.made c.listingPath (.error reason)] t
  | unwritten {reason : FileError} {t u : σ} (made : (files.createParents c.listingPath).run s = (.ok (), t))
      (refused : (files.writeText c.listingPath text).run t = (.error reason, u)) :
      Delivers files c text s 1 [.made c.listingPath (.ok ()), .wrote c.listingPath text (.error reason)] u
  | written {code : UInt32} {rest : List Event} {t u v : σ}
      (made : (files.createParents c.listingPath).run s = (.ok (), t))
      (wrote : (files.writeText c.listingPath text).run t = (.ok (), u))
      (finishes : Finishes files c u code rest v) :
      Delivers files c text s code
        ([.made c.listingPath (.ok ()), .wrote c.listingPath text (.ok ())] ++ rest) v

theorem Finishes.of_succeeded {c : Settings} {code : UInt32} {backend : String} {v : σ}
    (finishes : Finishes files c s code events v) (named : c.backend = some backend)
    (made : (files.createParents c.schematicPath).run s = (.ok (), t))
    (ran : (files.runProgram backend [c.listingPath, c.schematicPath]).run t = (.ok 0, u)) :
    code = 0 ∧ events = [.made c.schematicPath (.ok ()),
      .started backend [c.listingPath, c.schematicPath] (.ok 0)] := by
  cases finishes with
  | alone unnamed => cases named.symm.trans unnamed
  | unplaced _ refused => cases made.symm.trans refused
  | failed named' made' ran' failed =>
    cases named.symm.trans named'
    cases made.symm.trans made'
    cases ran.symm.trans ran'
    exact absurd rfl failed
  | succeeded named' made' ran' =>
    cases named.symm.trans named'
    exact ⟨rfl, rfl⟩

theorem Delivers.of_written {c : Settings} {text : String} {code : UInt32} {v : σ}
    (delivers : Delivers files c text s code events v)
    (made : (files.createParents c.listingPath).run s = (.ok (), t))
    (wrote : (files.writeText c.listingPath text).run t = (.ok (), u)) :
    ∃ rest, events = [.made c.listingPath (.ok ()), .wrote c.listingPath text (.ok ())] ++ rest ∧
      Finishes files c u code rest v := by
  cases delivers with
  | unplaced refused => cases made.symm.trans refused
  | unwritten made' refused =>
    cases made.symm.trans made'
    cases wrote.symm.trans refused
  | written made' wrote' finishes =>
    cases made.symm.trans made'
    cases wrote.symm.trans wrote'
    exact ⟨_, rfl, finishes⟩

theorem ends_giveUpWith (f : Failure) : Ends (giveUpWith f : RunT _ α) s none [] s :=
  .giveUp _

section loading

variable {β : Type} {kind : OptionKind} {parse : String → Except Failure α} {default value : α}
  {file : Option String} {absent : RunT (StateM (σ × List Event)) β}
  {present : String → Except FileError String → RunT (StateM (σ × List Event)) β}

theorem Loads.ends {b : β} (loads : Loads files flags kind parse default s value events t)
    (same : file = lastValue kind flags) (missing : value = default → ∀ s, Ends absent s (some b) [] s)
    (found : ∀ path text, parse text = .ok value → ∀ s, Ends (present path (.ok text)) s (some b) [] s) :
    Ends (match file with
      | none => absent
      | some path => ask (files.logged.readText path) >>= present path) s (some b) events t := by
  subst same
  cases loads with
  | unnamed named =>
    rw [named]
    exact missing rfl s
  | named named read parsed =>
    rw [named]
    exact .bind (.ask read (.read _)) (found _ _ parsed _)

theorem Spoils.ends (spoils : Spoils files flags kind parse s events t) (same : file = lastValue kind flags)
    (unread : ∀ path reason s, Ends (present path (.error reason)) s none [] s)
    (malformed : ∀ path text cause, parse text = .error (.error cause) →
      ∀ s, Ends (present path (.ok text)) s none [] s) :
    Ends (match file with
      | none => absent
      | some path => ask (files.logged.readText path) >>= present path) s none events t := by
  subst same
  cases spoils with
  | unread named refused =>
    rw [named]
    exact .bind (.ask refused (.read _)) (unread _ _ _)
  | malformed named read failed =>
    rw [named]
    exact .bind (.ask read (.read _)) (malformed _ _ _ failed _)

end loading

theorem ends_loadSettings {base : Settings}
    (loads : Loads files flags .settings (Settings.read files.readDocument) {} s base events t) :
    Ends (loadSettings files.logged (.withFlags {} flags)) s (some (chosen flags base)) events t := by
  rw [← apply_withFlags]
  refine loads.ends Option.or_none (fun same s => ?_) fun path text parsed s => ?_
  · rw [same]
    exact .pure
  · simp only [Host.logged, parsed]
    exact .bind .pure .pure

theorem ends_loadSettings_of_spoils
    (spoils : Spoils files flags .settings (Settings.read files.readDocument) s events t) :
    Ends (loadSettings files.logged (.withFlags {} flags)) s none events t := by
  refine spoils.ends Option.or_none (fun path reason s => ends_giveUpWith _)
    fun path text cause failed s => ?_
  simp only [Host.logged, failed]
  exact .stop (ends_giveUpWith _)

theorem ends_loadProgram {words : List UInt16}
    (loads : Loads files flags .program assembled [] s words events t) :
    Ends (loadProgram files.logged (.withFlags {} flags)) s (some words) events t := by
  refine loads.ends Option.or_none (fun same s => ?_) fun path source encoded s => ?_
  · rw [same]
    exact .pure
  · unfold assembled at encoded
    simp only [encoded]
    exact .pure

theorem ends_loadProgram_of_spoils (spoils : Spoils files flags .program assembled s events t) :
    Ends (loadProgram files.logged (.withFlags {} flags)) s none events t := by
  refine spoils.ends Option.or_none (fun path reason s => .giveUp _) fun path source cause failed s => ?_
  unfold assembled at failed
  simp only [failed]
  exact .giveUp _

section delivering

variable {step : StateM σ (Except FileError α)} {c : Settings}

theorem ends_onFiles_ok {a : α} (granted : step.run s = (.ok a, t)) (event : Except FileError α → Event) :
    Ends (onFiles (logging step event)) s (some a) [event (.ok a)] t :=
  .bind (.ask granted event) .pure

theorem ends_onFiles_error {reason : FileError} (refused : step.run s = (.error reason, t))
    (event : Except FileError α → Event) :
    Ends (onFiles (logging step event)) s none [event (.error reason)] t :=
  .bind (.ask refused event) (ends_giveUpWith _)

theorem ends_runBackend {backend : String} (named : c.backend = some backend) (files : Host (StateM σ))
    (s : σ) : ∃ result events t, Ends (runBackend files.logged c backend) s result events t ∧
      Finishes files c s (exitCode result) events t := by
  obtain ⟨placed, t, made⟩ : ∃ answer t, (files.createParents c.schematicPath).run s = (answer, t) :=
    ⟨_, _, rfl⟩
  cases placed with
  | error reason => exact ⟨none, _, _, .stop (ends_onFiles_error made (.made _)), .unplaced named made⟩
  | ok =>
    obtain ⟨answer, u, ran⟩ : ∃ answer u,
        (files.runProgram backend [c.listingPath, c.schematicPath]).run t = (answer, u) := ⟨_, _, rfl⟩
    have first := ends_onFiles_ok made (.made c.schematicPath)
    have second := Ends.ask ran (.started backend [c.listingPath, c.schematicPath])
    cases answer with
    | error reason =>
      exact ⟨none, _, _, .bind first (.bind second (ends_giveUpWith _)), .failed named made ran (by simp)⟩
    | ok status =>
      by_cases zero : status = 0
      · subst zero
        exact ⟨some (), _, _, .bind first (.bind second .pure), .succeeded named made ran⟩
      · refine ⟨none, _, _, .bind first (.bind second ?_), .failed named made ran (by simpa using zero)⟩
        simp only [ne_eq, zero, not_false_eq_true, if_true]
        exact ends_giveUpWith _

theorem ends_printing {result : Option α} {next : Unit → RunT _ α}
    (ends : Ends (next ()) s result events t) (verbose : Bool) (text : String) :
    Ends (if verbose then CommandLine.printLine text >>= next else next ()) s result events t := by
  cases verbose with
  | false => exact ends
  | true => exact .bind (.printLine text) ends

theorem ends_printingBehind {steps : RunT _ Unit} {result : Option Unit}
    (ends : Ends steps s result events t) (verbose : Bool) (text : String) :
    Ends (steps >>= fun _ => if verbose then CommandLine.printLine text else Pure.pure ()) s result events
      t := by
  cases result with
  | none => exact .stop ends
  | some _ =>
    refine .bind_quiet ends ?_
    cases verbose with
    | false => exact .pure
    | true => exact .printLine text

theorem ends_backend (files : Host (StateM σ)) (c : Settings) (verbose : Bool) (text : String) (s : σ) :
    ∃ result events t, Ends (match c.backend with
      | none => Pure.pure ()
      | some backend => do
        runBackend files.logged c backend
        if verbose then CommandLine.printLine text) s result events t ∧
      Finishes files c s (exitCode result) events t := by
  cases named : c.backend with
  | none => exact ⟨some (), _, _, .pure, .alone named⟩
  | some backend =>
    obtain ⟨result, events, t, ran, finishes⟩ := ends_runBackend named files s
    exact ⟨result, events, t, ends_printingBehind ran _ _, finishes⟩

theorem ends_generate {words : List UInt16} {listing : Listing}
    (built : Machine.withPrintCard words = .ok listing) (files : Host (StateM σ)) (c : Settings)
    (verbose : Bool) (s : σ) :
    ∃ result events t, Ends (generate files.logged c words verbose) s result events t ∧
      Delivers files c listing.render s (exitCode result) events t := by
  unfold generate
  rw [built]
  obtain ⟨placed, t, made⟩ : ∃ answer t, (files.createParents c.listingPath).run s = (answer, t) :=
    ⟨_, _, rfl⟩
  cases placed with
  | error reason =>
    exact ⟨none, _, _, .bind .pure (.stop (.stop (ends_onFiles_error made (.made _)))), .unplaced made⟩
  | ok =>
    obtain ⟨answer, u, wrote⟩ : ∃ answer u,
        (files.writeText c.listingPath listing.render).run t = (answer, u) := ⟨_, _, rfl⟩
    have first := ends_onFiles_ok made (.made c.listingPath)
    cases answer with
    | error reason =>
      have second := ends_onFiles_error wrote (.wrote c.listingPath listing.render)
      exact ⟨none, _, _, .bind .pure (.stop (.bind first second)), .unwritten made wrote⟩
    | ok =>
      have second := ends_onFiles_ok wrote (.wrote c.listingPath listing.render)
      obtain ⟨result, rest, v, ran, finishes⟩ := ends_backend files c verbose
        s!"Schematic written to {c.schematicPath}" u
      exact ⟨result, _, v, .bind .pure (.bind (.bind first second) (ends_printing ran _ _)),
        .written made wrote finishes⟩

theorem ends_generate_of_refused {words : List UInt16} {cause : Error}
    (refused : Machine.withPrintCard words = .error (.error cause)) (c : Settings) (verbose : Bool) :
    Ends (generate files.logged c words verbose) s none [] s := by
  unfold generate
  rw [refused]
  exact .stop (ends_giveUpWith _)

end delivering

section mirrors

theorem mirrors_require (result : Except Failure α) :
    Mirrors (require result : RunT (StateM (σ × List Event)) α) (require result) := by
  cases result with
  | ok a => exact .pure a
  | error f => exact .giveUp _

theorem mirrors_onFiles (step : StateM σ (Except FileError α)) (event : Except FileError α → Event) :
    Mirrors (onFiles (logging step event)) (onFiles step) := by
  refine .bind (.ask step event) fun answer => ?_
  cases answer with
  | ok a => exact .pure a
  | error reason => exact .giveUp _

theorem mirrors_loadSettings (files : Host (StateM σ)) (o : Options) :
    Mirrors (loadSettings files.logged o) (loadSettings files o) := by
  unfold loadSettings
  cases o.settingsFile with
  | none => exact .pure _
  | some path =>
    refine .bind (.ask (files.readText path) _) fun answer => ?_
    cases answer with
    | ok text => exact .bind (mirrors_require _) fun base => .pure _
    | error reason => exact .giveUp _

theorem mirrors_loadProgram (files : Host (StateM σ)) (o : Options) :
    Mirrors (loadProgram files.logged o) (loadProgram files o) := by
  unfold loadProgram
  cases o.programFile with
  | none => exact .pure _
  | some path =>
    refine .bind (.ask (files.readText path) _) fun answer => ?_
    cases answer with
    | error reason => exact .giveUp _
    | ok source =>
      simp only
      cases encodeProgram source.toList with
      | ok words => exact .pure words
      | error f => exact .giveUp _

theorem mirrors_runBackend (files : Host (StateM σ)) (c : Settings) (backend : String) :
    Mirrors (runBackend files.logged c backend) (runBackend files c backend) := by
  refine .bind (mirrors_onFiles (files.createParents _) _) fun _ =>
    .bind (.ask (files.runProgram backend _) _) fun answer => ?_
  cases answer with
  | error reason => exact .giveUp _
  | ok status =>
    simp only
    split
    · exact .giveUp _
    · exact .pure ()

theorem mirrors_printing {next : Unit → RunT (StateM (σ × List Event)) α}
    {plainNext : Unit → RunT (StateM σ) α} (mirrors : ∀ x, Mirrors (next x) (plainNext x)) (verbose : Bool)
    (text : String) : Mirrors (if verbose then CommandLine.printLine text >>= next else next ())
      (if verbose then CommandLine.printLine text >>= plainNext else plainNext ()) := by
  cases verbose with
  | false => exact mirrors ()
  | true => exact .bind (.printLine text) mirrors

theorem mirrors_generate (files : Host (StateM σ)) (c : Settings) (words : List UInt16) (verbose : Bool) :
    Mirrors (generate files.logged c words verbose) (generate files c words verbose) := by
  refine .bind (mirrors_require _) fun listing => .bind (.bind (mirrors_onFiles (files.createParents _) _)
    fun _ => mirrors_onFiles (files.writeText _ _) _) fun _ => mirrors_printing (fun _ => ?_) _ _
  cases c.backend with
  | none => exact .pure ()
  | some backend =>
    refine .bind (mirrors_runBackend files c backend) fun _ => ?_
    cases verbose with
    | false => exact .pure ()
    | true => exact .printLine _

theorem run_of_logged {program : String} {arguments : List String} {r : Report}
    (runs : (run files.logged program arguments).run (s, []) = (r, (t, events))) :
    (run files program arguments).run s = (r, t) := by
  unfold run at runs ⊢
  refine Mirrors.report ?_ runs
  cases Request.parse {} arguments with
  | help => exact .printLines _
  | missingValue option => exact .giveUp _
  | unknownOption argument => exact .bind (.printLines _) fun _ => .giveUp _
  | generate o =>
    exact .bind (mirrors_loadSettings files o) fun c => .bind (mirrors_loadProgram files o) fun words =>
      mirrors_generate files c words o.verbose

end mirrors

section run

variable {m : Type → Type} [Monad m] {arguments : List String} {ending : Ending}

def produce (host : Host m) (o : Options) : RunT m Unit := do
  let settings ← loadSettings host o
  let words ← loadProgram host o
  generate host settings words o.verbose

theorem run_complete (read : Reads arguments flags .complete) (host : Host m) (program : String) :
    run host program arguments = report (produce host (.withFlags {} flags)) := by
  rw [run, read.parse_eq]
  rfl

theorem run_missing {option : String} (read : Reads arguments flags (.missing option)) (host : Host m)
    (program : String) :
    run host program arguments = report (giveUp s!"Error: {option} requires a value") := by
  rw [run, read.parse_eq]
  rfl

theorem run_unknown {argument : String} (read : Reads arguments flags (.unknown argument)) (host : Host m)
    (program : String) : run host program arguments =
      report (printLines (usage program) >>= fun _ => giveUp s!"Error: Unknown option '{argument}'") := by
  rw [run, read.parse_eq]
  rfl

theorem run_of_fault (read : Reads arguments flags ending) (fault : Fault files flags s ending events t)
    (program : String) :
    ∃ r, (run files.logged program arguments).run (s, []) = (r, (t, events)) ∧ r.code = 1 := by
  suffices gaveUp : ∃ steps, run files.logged program arguments = report steps ∧
      Ends steps s none events t by
    obtain ⟨steps, same, ends⟩ := gaveUp
    obtain ⟨r, runs, code⟩ := ends.report
    exact ⟨r, same ▸ runs, code⟩
  cases fault with
  | unknown => exact ⟨_, run_unknown read _ _, .bind (.printLines _) (.giveUp _)⟩
  | missing => exact ⟨_, run_missing read _ _, .giveUp _⟩
  | settings spoils => exact ⟨_, run_complete read _ _, .stop (ends_loadSettings_of_spoils spoils)⟩
  | program settings spoils =>
    exact ⟨_, run_complete read _ _,
      .bind (ends_loadSettings settings) (.stop (ends_loadProgram_of_spoils spoils))⟩
  | machine gathers refused =>
    obtain ⟨settings, program⟩ := gathers
    exact ⟨_, run_complete read _ _, .bind (ends_loadSettings settings)
      (.bind_quiet (ends_loadProgram program) (ends_generate_of_refused refused _ _))⟩

theorem run_of_built {base : Settings} {words : List UInt16} {listing : Listing}
    (read : Reads arguments flags .complete) (gathers : Gathers files flags s base words events t)
    (built : Machine.withPrintCard words = .ok listing) (program : String) :
    ∃ r later u, (run files.logged program arguments).run (s, []) = (r, (u, events ++ later)) ∧
      Delivers files (chosen flags base) listing.render t r.code later u := by
  obtain ⟨settings, loaded⟩ := gathers
  obtain ⟨result, later, u, ends, delivers⟩ := ends_generate built files (chosen flags base)
    (Options.withFlags {} flags).verbose t
  have produced : Ends (produce files.logged (.withFlags {} flags)) _ result _ u :=
    .bind (ends_loadSettings settings) (.bind (ends_loadProgram loaded) ends)
  obtain ⟨r, runs, code⟩ := produced.report
  rw [← run_complete read files.logged program, ← List.append_assoc] at runs
  exact ⟨r, later, u, runs, code ▸ delivers⟩

end run

/-- Without a request for help, a generator with a fault in its arguments, its files or its program reads at
most the files that are named, and gives up. Without a fault it reads them and writes the listing of the
machine, and only a listing that is written goes to a backend; the exit code tells whether that went well. An
option's last value wins over the settings file, and that over the default, so options of different kinds can
be reordered. -/
theorem generator_is_all_or_nothing (files : Host (StateM σ)) (program : String) (arguments : List String)
    (s : σ) :
    ∃ flags ending, (∀ flags' ending', Reads arguments flags' ending' ↔ flags' = flags ∧ ending' = ending) ∧
      (ending = .help → "-h" ∈ arguments ∨ "--help" ∈ arguments) ∧
      (ending ≠ .help → (∃ events t, Fault files flags s ending events t) ∨
        ending = .complete ∧ ∃ base words listing events t, Gathers files flags s base words events t ∧
          Machine.withPrintCard words = .ok listing) ∧
      (∀ events t, Fault files flags s ending events t → ∃ r,
        (run files program arguments).run s = (r, t) ∧
        (run files.logged program arguments).run (s, []) = (r, (t, events)) ∧ r.code = 1 ∧
        ∀ event ∈ events, event.IsRead) ∧
      (ending = .complete → ∀ base words listing events t, Gathers files flags s base words events t →
        Machine.withPrintCard words = .ok listing → ∃ r later u,
          (run files program arguments).run s = (r, u) ∧
          (run files.logged program arguments).run (s, []) = (r, (u, events ++ later)) ∧
          Delivers files (chosen flags base) listing.render t r.code later u) ∧
      (∀ readDocument text base, Settings.read readDocument text = .ok base ↔
        ∃ document, readDocument text = some document ∧
          (∀ name ∈ Settings.names, Settings.IsTextual document name) ∧ base = .ofDocument document) ∧
      ∀ arguments' flags', Reads arguments' flags' ending →
        (∀ kind, values kind flags' = values kind flags) → (.verbose ∈ flags' ↔ .verbose ∈ flags) →
          ∀ (m : Type → Type) [Monad m] (host : Host m),
            run host program arguments' = run host program arguments := by
  obtain ⟨flags, ending, read⟩ := exists_reads arguments
  refine ⟨flags, ending, fun flags' ending' => ⟨read.unique, ?_⟩, ?_,
    fun other => fault_or_gathers_of_ne_help other files flags s, fun events t fault => ?_, ?_,
    fun readDocument text base => Settings.read_eq_ok_iff,
    fun arguments' flags' read' same verbose m _ host => ?_⟩
  · rintro ⟨rfl, rfl⟩
    exact read
  · rintro rfl
    exact read.help_mem
  · obtain ⟨r, runs, code⟩ := run_of_fault read fault program
    exact ⟨r, run_of_logged runs, runs, code, fault.isRead⟩
  · rintro rfl base words listing events t gathers built
    obtain ⟨r, later, u, runs, delivers⟩ := run_of_built read gathers built program
    exact ⟨r, later, u, run_of_logged runs, runs, delivers⟩
  · rw [run, run, read.parse_eq, read'.parse_eq, Options.withFlags_congr same verbose]

def chipTree : FileTree where
  root := .directory [("bin", .directory [("mkschem", .program 0)]),
    ("work", .directory [("cpu.toml", .file (some "name = 'cpu'\nbackend = 'mkschem'\n")),
      ("add.asm", .file (some "add a0 a1\n"))])]
  workingDirectory := ["work"]

def chipFlags : List Flag :=
  [.valued .settings "cpu.toml", .valued .program "add.asm", .valued .name "chip"]

def chipSettings : Settings where
  name := "cpu"
  backend := some "mkschem"

theorem gathers_chip : Gathers FileTree.host chipFlags chipTree chipSettings [0o101]
    [.read "cpu.toml" (.ok "name = 'cpu'\nbackend = 'mkschem'\n"), .read "add.asm" (.ok "add a0 a1\n")]
    chipTree := by
  have settingsFile : chipTree.Holds "cpu.toml" "name = 'cpu'\nbackend = 'mkschem'\n" :=
    ⟨["cpu.toml", "work"], FileTree.leads_of_steps ["cpu.toml"] (by decide +kernel)
      (by decide +kernel) rfl, rfl⟩
  have programFile : chipTree.Holds "add.asm" "add a0 a1\n" :=
    ⟨["add.asm", "work"], FileTree.leads_of_steps ["add.asm"] (by decide +kernel)
      (by decide +kernel) rfl, rfl⟩
  have parsed : Settings.read FileTree.host.readDocument "name = 'cpu'\nbackend = 'mkschem'\n" =
      .ok chipSettings := by decide +kernel
  have encoded : assembled "add a0 a1\n" = .ok [0o101] := by decide +kernel
  exact ⟨.named rfl (FileTree.readText_eq_ok_iff.2 ⟨settingsFile, rfl⟩) parsed,
    .named rfl (FileTree.readText_eq_ok_iff.2 ⟨programFile, rfl⟩) encoded⟩

theorem delivers_chip {text : String} {code : UInt32} {t : FileTree}
    (delivers : Delivers FileTree.host (chosen chipFlags chipSettings) text chipTree code events t) :
    events = [.made "generated/chip.blk" (.ok ()), .wrote "generated/chip.blk" text (.ok ()),
      .made "schematics/chip.schem" (.ok ()),
      .started "mkschem" ["generated/chip.blk", "schematics/chip.schem"] (.ok 0)] ∧ code = 0 := by
  have listingPath : (chosen chipFlags chipSettings).listingPath = "generated/chip.blk" := by decide +kernel
  have schematicPath : (chosen chipFlags chipSettings).schematicPath = "schematics/chip.schem" := by
    decide +kernel
  let placed := chipTree.put (.along chipTree.root ["generated", "work"]) (.directory [])
  let listed := placed.put (.along placed.root ["chip.blk", "generated", "work"]) (.file (some text))
  let ready := listed.put (.along listed.root ["schematics", "work"]) (.directory [])
  have made : (FileTree.host.createParents "generated/chip.blk").run chipTree = (.ok (), placed) :=
    FileTree.run_createParents "generated" [] (by decide +kernel)
      (FileTree.leads_of_steps ["generated"] (by decide +kernel) (by decide +kernel) rfl) rfl
  have wrote : (FileTree.host.writeText "generated/chip.blk" text).run placed = (.ok (), listed) :=
    FileTree.run_writeText_of_none (FileTree.leads_of_steps ["generated", "chip.blk"]
      (by decide +kernel) (by decide +kernel) rfl) rfl text
  have made' : (FileTree.host.createParents "schematics/chip.schem").run listed = (.ok (), ready) :=
    FileTree.run_createParents "schematics" [] (by decide +kernel)
      (FileTree.leads_of_steps ["schematics"] (by decide +kernel) (by decide +kernel) rfl) rfl
  have ran : (FileTree.host.runProgram "mkschem" ["generated/chip.blk", "schematics/chip.schem"]).run ready =
      (.ok 0, ready) :=
    FileTree.run_runProgram (.along ready.root ["mkschem", "bin"]) (by decide +kernel) rfl rfl _
  obtain ⟨rest, rfl, finishes⟩ := delivers.of_written (listingPath ▸ made) (listingPath ▸ wrote)
  obtain ⟨code, rfl⟩ := finishes.of_succeeded rfl (schematicPath ▸ made')
    (listingPath ▸ schematicPath ▸ ran)
  rw [listingPath, schematicPath]
  exact ⟨rfl, code⟩

theorem generator_is_all_or_nothing_chip :
    (∃ r listing t, Machine.withPrintCard [0o101] = .ok listing ∧
      (run FileTree.host "generator" ["--config", "cpu.toml", "--program", "add.asm", "--name", "chip"]).run
        chipTree = (r, t) ∧
      (run FileTree.host.logged "generator"
        ["--config", "cpu.toml", "--program", "add.asm", "--name", "chip"]).run (chipTree, []) =
          (r, (t, [.read "cpu.toml" (.ok "name = 'cpu'\nbackend = 'mkschem'\n"),
            .read "add.asm" (.ok "add a0 a1\n"), .made "generated/chip.blk" (.ok ()),
            .wrote "generated/chip.blk" listing.render (.ok ()), .made "schematics/chip.schem" (.ok ()),
            .started "mkschem" ["generated/chip.blk", "schematics/chip.schem"] (.ok 0)])) ∧
      r.code = 0) ∧
    run FileTree.host "generator" ["--name", "chip", "--program", "add.asm", "--config", "cpu.toml"] =
      run FileTree.host "generator" ["--config", "cpu.toml", "--program", "add.asm", "--name", "chip"] ∧
    ∃ r, (run FileTree.host.logged "generator" ["--name"]).run (chipTree, []) = (r, (chipTree, [])) ∧
      r.code = 1 := by
  have listed : Reads ["--config", "cpu.toml", "--program", "add.asm", "--name", "chip"] chipFlags .complete :=
    .valued (by decide) _ (.valued (by decide) _ (.valued (by decide) _ .complete))
  have reordered : Reads ["--name", "chip", "--program", "add.asm", "--config", "cpu.toml"]
      chipFlags.reverse .complete :=
    .valued (by decide) _ (.valued (by decide) _ (.valued (by decide) _ .complete))
  obtain ⟨flags, ending, unique, -, -, -, all, -, ordered⟩ := generator_is_all_or_nothing FileTree.host
    "generator" ["--config", "cpu.toml", "--program", "add.asm", "--name", "chip"] chipTree
  obtain ⟨rfl, rfl⟩ := (unique _ _).1 listed
  refine ⟨?_, ordered _ _ reordered (fun kind => by cases kind <;> rfl) (by simp) _ FileTree.host, ?_⟩
  · obtain ⟨listing, built⟩ := @Machine.exists_withPrintCard_eq_ok [0o101] (by decide)
    obtain ⟨r, later, u, runs, logged, delivers⟩ := all rfl _ _ listing _ _ gathers_chip built
    obtain ⟨rfl, code⟩ := delivers_chip delivers
    exact ⟨r, listing, u, built, runs, logged, code⟩
  · obtain ⟨flags, ending, unique, -, -, faulty, -⟩ := generator_is_all_or_nothing FileTree.host "generator"
      ["--name"] chipTree
    obtain ⟨rfl, rfl⟩ := (unique [] (.missing "--name")).1 (@Reads.missing "--name" .name (by decide))
    obtain ⟨r, -, logged, code, -⟩ := faulty _ _ (.missing "--name")
    exact ⟨r, logged, code⟩

section tree

variable {t t' : FileTree} {kind : OptionKind} {parse : String → Except Failure α} {c : Settings}
  {text : String} {code : UInt32}

theorem Loads.tree_eq {default value : α}
    (loads : Loads FileTree.host flags kind parse default t value events t') : t' = t := by
  cases loads with
  | unnamed => rfl
  | named _ read => exact FileTree.eq_of_readText read

theorem Spoils.tree_eq (spoils : Spoils FileTree.host flags kind parse t events t') : t' = t := by
  cases spoils with
  | unread _ refused => exact FileTree.eq_of_readText refused
  | malformed _ read => exact FileTree.eq_of_readText read

theorem Gathers.tree_eq {base : Settings} {words : List UInt16}
    (gathers : Gathers FileTree.host flags t base words events t') : t' = t := by
  obtain ⟨settings, program⟩ := gathers
  exact program.tree_eq.trans settings.tree_eq

theorem Fault.tree_eq {ending : Ending} (fault : Fault FileTree.host flags t ending events t') : t' = t := by
  cases fault with
  | unknown | missing => rfl
  | settings spoils => exact spoils.tree_eq
  | program settings spoils => exact spoils.tree_eq.trans settings.tree_eq
  | machine gathers => exact gathers.tree_eq

theorem Finishes.grows (finishes : Finishes FileTree.host c t code events t') : t.Grows t' := by
  cases finishes with
  | alone => exact .refl t
  | unplaced _ refused => exact FileTree.grows_of_createParents refused
  | failed _ made ran | succeeded _ made ran =>
    rw [FileTree.eq_of_runProgram ran]
    exact FileTree.grows_of_createParents made

theorem Delivers.holds (delivers : Delivers FileTree.host c text t code events t') :
    (code = 0 → t'.Holds c.listingPath text) ∧ ∀ path old, t.Holds path old →
      t'.Holds path old ∨ t'.SamePlace path c.listingPath ∧ t'.Holds path text := by
  cases delivers with
  | unplaced refused =>
    have grows := FileTree.grows_of_createParents refused
    exact ⟨fun zero => absurd zero (by decide), fun path old holds => .inl (holds.grows grows)⟩
  | unwritten made refused =>
    rw [FileTree.eq_of_writeText_error refused]
    have grows := FileTree.grows_of_createParents made
    exact ⟨fun zero => absurd zero (by decide), fun path old holds => .inl (holds.grows grows)⟩
  | written made wrote finishes =>
    obtain ⟨listed, others⟩ := FileTree.holds_of_writeText wrote
    refine ⟨fun _ => listed.grows finishes.grows, fun path old holds => ?_⟩
    exact (others path old (holds.grows (FileTree.grows_of_createParents made))).imp
      (·.grows finishes.grows) fun ⟨same, replaced⟩ =>
        ⟨same.grows finishes.grows, replaced.grows finishes.grows⟩

/-- On a tree of files a generator without a request for help leaves the tree as it was and gives up, or it
has built a machine. Then the exit code zero says that the machine's listing can be read under its path, and
no other file has lost its text. -/
theorem run_on_tree {arguments : List String} {ending : Ending} (read : Reads arguments flags ending)
    (other : ending ≠ .help) (program : String) (t : FileTree) :
    ∃ r t', (run FileTree.host program arguments).run t = (r, t') ∧ (r.code = 1 ∧ t' = t ∨
      ∃ base words listing events, Gathers FileTree.host flags t base words events t ∧
        Machine.withPrintCard words = .ok listing ∧
        (r.code = 0 → t'.Holds (chosen flags base).listingPath listing.render) ∧
        ∀ path text, t.Holds path text → t'.Holds path text ∨
          t'.SamePlace path (chosen flags base).listingPath ∧ t'.Holds path listing.render) := by
  rcases fault_or_gathers_of_ne_help other FileTree.host flags t with
    ⟨events, t', fault⟩ | ⟨rfl, base, words, listing, events, t', gathers, built⟩
  · obtain ⟨r, runs, code⟩ := run_of_fault read fault program
    exact ⟨r, t', run_of_logged runs, .inl ⟨code, fault.tree_eq⟩⟩
  · obtain ⟨r, later, u, runs, delivers⟩ := run_of_built read gathers built program
    obtain rfl := gathers.tree_eq
    exact ⟨r, u, run_of_logged runs, .inr ⟨base, words, listing, events, gathers, built, delivers.holds⟩⟩

end tree

end BlockComputer.CommandLine.Generator
