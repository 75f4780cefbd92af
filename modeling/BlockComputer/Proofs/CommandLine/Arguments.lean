import BlockComputer.CommandLine.Generator

/-!
How the generator reads its arguments.

Arguments are read from left to right: an option that takes a value takes the argument behind it, whatever
that is. A reading lists the options that were given, and says what ended it. Every list of arguments has
exactly one reading, and what is requested depends on the values of each option and on the end alone, not
on how options of different kinds are mixed.
-/

namespace BlockComputer.CommandLine.Generator

inductive OptionKind where
  | output
  | name
  | settings
  | backend
  | program
deriving DecidableEq, Repr

/-- What an argument in the place of an option means. -/
inductive Meaning where
  | takesValue (kind : OptionKind)
  | verbose
  | help
deriving DecidableEq, Repr

def optionTable : List (String × Meaning) :=
  [("-o", .takesValue .output), ("--output", .takesValue .output), ("--name", .takesValue .name),
   ("--config", .takesValue .settings), ("--backend", .takesValue .backend),
   ("--program", .takesValue .program), ("-v", .verbose), ("--verbose", .verbose), ("-h", .help),
   ("--help", .help)]

theorem lookup_optionTable_iff {option : String} {meaning : Meaning} :
    optionTable.lookup option = some meaning ↔ (option, meaning) ∈ optionTable := by
  constructor
  · intro named
    obtain ⟨before, after, split, -⟩ := List.lookup_eq_some_iff.1 named
    rw [split]
    exact List.mem_append_right _ List.mem_cons_self
  · have named : ∀ entry ∈ optionTable, optionTable.lookup entry.1 = some entry.2 := by decide
    exact named (option, meaning)

theorem lookup_verbose_iff {option : String} :
    optionTable.lookup option = some .verbose ↔ option = "-v" ∨ option = "--verbose" := by
  rw [lookup_optionTable_iff]
  simp [optionTable]

theorem lookup_help_iff {option : String} :
    optionTable.lookup option = some .help ↔ option = "-h" ∨ option = "--help" := by
  rw [lookup_optionTable_iff]
  simp [optionTable]

inductive Flag where
  | valued (kind : OptionKind) (value : String)
  | verbose
deriving DecidableEq, Repr

/-- What ends the reading of arguments. -/
inductive Ending where
  | complete
  | missing (option : String)
  | unknown (argument : String)
  | help
deriving DecidableEq, Repr

/-- The arguments give these options up to this end. -/
inductive Reads : List String → List Flag → Ending → Prop where
  | complete : Reads [] [] .complete
  | valued {option kind} (named : optionTable.lookup option = some (.takesValue kind)) (value : String)
      {rest flags ending} : Reads rest flags ending →
      Reads (option :: value :: rest) (.valued kind value :: flags) ending
  | verbose {option} (named : optionTable.lookup option = some .verbose) {rest flags ending} :
      Reads rest flags ending → Reads (option :: rest) (.verbose :: flags) ending
  | missing {option kind} (named : optionTable.lookup option = some (.takesValue kind)) :
      Reads [option] [] (.missing option)
  | help {option} (named : optionTable.lookup option = some .help) (rest : List String) :
      Reads (option :: rest) [] .help
  | unknown {argument} (other : optionTable.lookup argument = none) (rest : List String) :
      Reads (argument :: rest) [] (.unknown argument)

namespace Reads

variable {arguments : List String} {flags flags' : List Flag} {ending ending' : Ending}

theorem unique (h : Reads arguments flags ending) (h' : Reads arguments flags' ending') :
    flags' = flags ∧ ending' = ending := by
  induction h generalizing flags' with
  | complete =>
    cases h'
    exact ⟨rfl, rfl⟩
  | valued named value _ ih =>
    cases h' with
    | valued named' _ rest =>
      rw [named] at named'
      cases named'
      obtain ⟨rfl, rfl⟩ := ih rest
      exact ⟨rfl, rfl⟩
    | verbose named' | help named' | unknown named' =>
      rw [named] at named'
      cases named'
  | verbose named _ ih =>
    cases h' with
    | verbose _ rest =>
      obtain ⟨rfl, rfl⟩ := ih rest
      exact ⟨rfl, rfl⟩
    | valued named' | missing named' | help named' | unknown named' =>
      rw [named] at named'
      cases named'
  | missing named =>
    cases h' with
    | missing => exact ⟨rfl, rfl⟩
    | verbose named' | help named' | unknown named' =>
      rw [named] at named'
      cases named'
  | help named =>
    cases h' with
    | help => exact ⟨rfl, rfl⟩
    | valued named' | verbose named' | missing named' | unknown named' =>
      rw [named] at named'
      cases named'
  | unknown other =>
    cases h' with
    | unknown => exact ⟨rfl, rfl⟩
    | valued named' | verbose named' | missing named' | help named' =>
      rw [other] at named'
      cases named'

theorem help_mem (h : Reads arguments flags .help) : "-h" ∈ arguments ∨ "--help" ∈ arguments := by
  generalize same : Ending.help = ending at h
  induction h with
  | complete | missing | unknown => cases same
  | valued _ _ _ ih =>
    exact (ih same).imp (fun mem => List.mem_cons_of_mem _ (List.mem_cons_of_mem _ mem))
      fun mem => List.mem_cons_of_mem _ (List.mem_cons_of_mem _ mem)
  | verbose _ _ ih => exact (ih same).imp (List.mem_cons_of_mem _) (List.mem_cons_of_mem _)
  | help named =>
    rcases lookup_help_iff.1 named with rfl | rfl
    · exact .inl List.mem_cons_self
    · exact .inr List.mem_cons_self

end Reads

theorem exists_reads : ∀ arguments : List String, ∃ flags ending, Reads arguments flags ending
  | [] => ⟨_, _, .complete⟩
  | option :: rest => by
    cases named : optionTable.lookup option with
    | none => exact ⟨_, _, .unknown named rest⟩
    | some meaning =>
      cases meaning with
      | help => exact ⟨_, _, .help named rest⟩
      | verbose =>
        obtain ⟨flags, ending, read⟩ := exists_reads rest
        exact ⟨_, _, .verbose named read⟩
      | takesValue kind =>
        cases rest with
        | nil => exact ⟨_, _, .missing named⟩
        | cons value rest =>
          obtain ⟨flags, ending, read⟩ := exists_reads rest
          exact ⟨_, _, .valued named value read⟩

def Flag.value? (kind : OptionKind) : Flag → Option String
  | .valued other value => if other = kind then some value else none
  | .verbose => none

def values (kind : OptionKind) (flags : List Flag) : List String :=
  flags.filterMap (Flag.value? kind)

def lastValue (kind : OptionKind) (flags : List Flag) : Option String :=
  (values kind flags).getLast?

theorem lastValue_cons (kind : OptionKind) (flag : Flag) (flags : List Flag) :
    lastValue kind (flag :: flags) = (lastValue kind flags).or (flag.value? kind) := by
  unfold lastValue values
  rw [List.filterMap_cons]
  cases flag.value? kind with
  | none => simp
  | some value =>
    rw [List.getLast?_cons]
    cases (flags.filterMap (Flag.value? kind)).getLast? <;> rfl

namespace Options

def put (o : Options) : Flag → Options
  | .valued .output value => { o with outputDirectory := some value }
  | .valued .name value => { o with name := some value }
  | .valued .settings value => { o with settingsFile := some value }
  | .valued .backend value => { o with backend := some value }
  | .valued .program value => { o with programFile := some value }
  | .verbose => { o with verbose := true }

def withFlags (o : Options) (flags : List Flag) : Options where
  outputDirectory := (lastValue .output flags).or o.outputDirectory
  name := (lastValue .name flags).or o.name
  settingsFile := (lastValue .settings flags).or o.settingsFile
  backend := (lastValue .backend flags).or o.backend
  programFile := (lastValue .program flags).or o.programFile
  verbose := o.verbose || decide (.verbose ∈ flags)

@[simp] theorem withFlags_nil (o : Options) : o.withFlags [] = o := by
  simp [withFlags, lastValue, values]

theorem withFlags_put (o : Options) (flag : Flag) (flags : List Flag) :
    (o.put flag).withFlags flags = o.withFlags (flag :: flags) := by
  cases flag with
  | valued kind value => cases kind <;> simp [withFlags, put, lastValue_cons, Flag.value?]
  | verbose => simp [withFlags, put, lastValue_cons, Flag.value?]

theorem withFlags_congr {flags flags' : List Flag} (same : ∀ kind, values kind flags' = values kind flags)
    (verbose : .verbose ∈ flags' ↔ .verbose ∈ flags) (o : Options) :
    o.withFlags flags' = o.withFlags flags := by
  simp only [withFlags, lastValue, same, verbose]

theorem withValue?_eq {option : String} {kind : OptionKind}
    (named : optionTable.lookup option = some (.takesValue kind)) (o : Options) (value : String) :
    o.withValue? option value = some (o.put (.valued kind value)) := by
  have spelled := lookup_optionTable_iff.1 named
  simp only [optionTable, List.mem_cons, Prod.mk.injEq, reduceCtorEq, and_false, List.not_mem_nil,
    or_false, Meaning.takesValue.injEq] at spelled
  rcases spelled with ⟨rfl, rfl⟩ | ⟨rfl, rfl⟩ | ⟨rfl, rfl⟩ | ⟨rfl, rfl⟩ | ⟨rfl, rfl⟩ | ⟨rfl, rfl⟩ <;> rfl

end Options

theorem takesValue_iff {option : String} :
    takesValue option ↔ ∃ kind, optionTable.lookup option = some (.takesValue kind) := by
  constructor
  · intro takes
    unfold takesValue Options.withValue? at takes
    split at takes
    · exact ⟨.output, by decide⟩
    · exact ⟨.output, by decide⟩
    · exact ⟨.name, by decide⟩
    · exact ⟨.settings, by decide⟩
    · exact ⟨.backend, by decide⟩
    · exact ⟨.program, by decide⟩
    · cases takes
  · rintro ⟨kind, named⟩
    rw [takesValue, Options.withValue?_eq named]
    rfl

theorem not_takesValue {option : String} {meaning : Option Meaning}
    (named : optionTable.lookup option = meaning) (other : ∀ kind, meaning ≠ some (.takesValue kind)) :
    ¬ takesValue option := by
  rw [takesValue_iff]
  rintro ⟨kind, takes⟩
  exact other kind (named.symm.trans takes)

def Ending.request (o : Options) : Ending → Request
  | .complete => .generate o
  | .missing option => .missingValue option
  | .unknown argument => .unknownOption argument
  | .help => .help

theorem parse_cons (o : Options) (argument : String) (rest : List String) :
    Request.parse o (argument :: rest) =
      if takesValue argument then
        match rest with
        | [] => .missingValue argument
        | value :: others => Request.parse ((o.withValue? argument value).getD o) others
      else if argument = "-v" ∨ argument = "--verbose" then Request.parse { o with verbose := true } rest
      else if argument = "-h" ∨ argument = "--help" then .help
      else .unknownOption argument :=
  Request.parse.eq_def o (argument :: rest)

/-- The request is read off the last values of the options, and off the end. -/
theorem Reads.parse_eq {arguments : List String} {flags : List Flag} {ending : Ending}
    (h : Reads arguments flags ending) (o : Options) :
    Request.parse o arguments = ending.request (o.withFlags flags) := by
  induction h generalizing o with
  | complete => simp [Request.parse, Ending.request]
  | valued named value _ ih =>
    rw [parse_cons, if_pos (takesValue_iff.2 ⟨_, named⟩)]
    simp only [Options.withValue?_eq named, Option.getD_some]
    rw [ih, Options.withFlags_put]
  | verbose named _ ih =>
    rw [parse_cons, if_neg (not_takesValue named (by simp)), if_pos (lookup_verbose_iff.1 named)]
    rw [ih]
    exact congrArg (Ending.request · _) (Options.withFlags_put o .verbose _)
  | missing named =>
    rw [parse_cons, if_pos (takesValue_iff.2 ⟨_, named⟩)]
    rfl
  | help named rest =>
    rw [parse_cons, if_neg (not_takesValue named (by simp)),
      if_neg fun verbose => absurd (named.symm.trans (lookup_verbose_iff.2 verbose)) (by simp),
      if_pos (lookup_help_iff.1 named)]
    rfl
  | unknown other rest =>
    rw [parse_cons, if_neg (not_takesValue other (by simp)),
      if_neg fun verbose => absurd (other.symm.trans (lookup_verbose_iff.2 verbose)) (by simp),
      if_neg fun help => absurd (other.symm.trans (lookup_help_iff.2 help)) (by simp)]
    rfl

end BlockComputer.CommandLine.Generator
