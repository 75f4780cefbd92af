import BlockComputer.CommandLine.FileTree

/-!
What the steps of a host leave of a tree of files.

A tree is seen as what stands at each of its places. Making directories leaves all files alone. A text that
is written can be read back under its path, and every file that stands elsewhere is left alone.
-/

namespace BlockComputer.CommandLine

namespace FileNode

def get? : FileNode → List String → Option FileNode
  | node, [] => some node
  | .directory entries, name :: rest => (entries.lookup name).bind (get? · rest)
  | _, _ :: _ => none

/-- What becomes of a node when something is put elsewhere: a directory may get other entries. -/
inductive Survives : FileNode → FileNode → Prop where
  | refl (node : FileNode) : Survives node node
  | directory (old new : List (String × FileNode)) : Survives (.directory old) (.directory new)

theorem Survives.trans {a b c : FileNode} (first : Survives a b) (second : Survives b c) : Survives a c := by
  cases first with
  | refl => exact second
  | directory old new =>
    cases second with
    | refl => exact .directory old new
    | directory _ last => exact .directory old last

theorem get?_append (node : FileNode) (place rest : List String) :
    node.get? (place ++ rest) = (node.get? place).bind (get? · rest) := by
  induction place generalizing node with
  | nil => rfl
  | cons name place ih =>
    cases node with
    | file | program => rfl
    | directory entries =>
      simp only [List.cons_append, get?]
      cases entries.lookup name with
      | none => rfl
      | some child => exact ih child

theorem get?_concat {node : FileNode} {place : List String} {entries : List (String × FileNode)}
    (directory : node.get? place = some (.directory entries)) (name : String) :
    node.get? (place ++ [name]) = entries.lookup name := by
  rw [get?_append, directory]
  simp only [Option.bind_some, get?]
  cases entries.lookup name <;> rfl

theorem exists_of_get?_cons {node child : FileNode} {name : String} {rest : List String}
    (stands : node.get? (name :: rest) = some child) :
    ∃ entries next, node = .directory entries ∧ entries.lookup name = some next ∧
      next.get? rest = some child := by
  cases node with
  | file | program => cases stands
  | directory entries =>
    obtain ⟨next, found, below⟩ := Option.bind_eq_some_iff.1 stands
    exact ⟨entries, next, rfl, found, below⟩

theorem lookup_filter {name other : String} (ne : other ≠ name) (entries : List (String × FileNode)) :
    (entries.filter (·.1 != name)).lookup other = entries.lookup other := by
  induction entries with
  | nil => rfl
  | cons entry entries ih =>
    obtain ⟨key, child⟩ := entry
    by_cases named : key = name
    · rw [List.filter_cons_of_neg (by simp [named]), List.lookup_cons,
        beq_eq_false_iff_ne.2 (named ▸ ne), ih]
    · rw [List.filter_cons_of_pos (by simp [named]), List.lookup_cons, List.lookup_cons, ih]

theorem lookup_replace (entries : List (String × FileNode)) (name other : String) (new : FileNode) :
    ((name, new) :: entries.filter (·.1 != name)).lookup other =
      if other = name then some new else entries.lookup other := by
  rw [List.lookup_cons]
  by_cases same : other = name
  · rw [if_pos same, beq_iff_eq.2 same]
  · rw [if_neg same, beq_eq_false_iff_ne.2 same, lookup_filter same]

theorem get?_put_cons (entries : List (String × FileNode)) (name other : String) (place rest : List String)
    (new : FileNode) : (put (.directory entries) (name :: place) new).get? (other :: rest) =
      if other = name then (((entries.lookup name).getD (.directory [])).put place new).get? rest
      else get? (.directory entries) (other :: rest) := by
  simp only [put, get?, lookup_replace]
  split <;> rfl

variable {root node new : FileNode} {parent place : List String} {entries : List (String × FileNode)}
  {name : String}

theorem get?_put (directory : root.get? parent = some (.directory entries)) (name : String)
    (new : FileNode) : (root.put (parent ++ [name]) new).get? (parent ++ [name]) = some new := by
  induction parent generalizing root with
  | nil =>
    cases directory
    rw [List.nil_append, get?_put_cons, if_pos rfl, put, get?]
  | cons first parent ih =>
    obtain ⟨entries, child, rfl, found, below⟩ := exists_of_get?_cons directory
    rw [List.cons_append, get?_put_cons, if_pos rfl, found]
    exact ih below

/-- What stands elsewhere survives, unless it stands below the place; below anything but a directory
nothing stands. -/
theorem exists_get?_put (directory : root.get? parent = some (.directory entries))
    (free : ∀ inner, entries.lookup name ≠ some (.directory inner)) (other : place ≠ parent ++ [name])
    (stands : root.get? place = some node) (new : FileNode) :
    ∃ node', (root.put (parent ++ [name]) new).get? place = some node' ∧ node.Survives node' := by
  induction parent generalizing root place with
  | nil =>
    cases directory
    cases place with
    | nil =>
      cases stands
      exact ⟨_, rfl, .directory _ _⟩
    | cons first rest =>
      obtain ⟨_, child, same, found, below⟩ := exists_of_get?_cons stands
      cases same
      by_cases named : first = name
      · subst named
        cases rest with
        | nil => exact absurd rfl other
        | cons second rest =>
          obtain ⟨inner, -, rfl, -, -⟩ := exists_of_get?_cons below
          exact absurd found (free inner)
      · refine ⟨node, ?_, .refl node⟩
        rw [List.nil_append, get?_put_cons, if_neg named]
        exact stands
  | cons first parent ih =>
    obtain ⟨outer, child, rfl, found, below⟩ := exists_of_get?_cons directory
    cases place with
    | nil =>
      cases stands
      exact ⟨_, rfl, .directory _ _⟩
    | cons second rest =>
      obtain ⟨_, child', same, found', below'⟩ := exists_of_get?_cons stands
      cases same
      by_cases named : second = first
      · subst named
        cases found.symm.trans found'
        obtain ⟨node', stands', survives⟩ := ih below (fun same => other (by rw [same]; rfl)) below'
        refine ⟨node', ?_, survives⟩
        rw [List.cons_append, get?_put_cons, if_pos rfl, found]
        exact stands'
      · refine ⟨node, ?_, .refl node⟩
        rw [List.cons_append, get?_put_cons, if_neg named]
        exact stands

end FileNode

namespace Trail

def along (root : FileNode) : List String → Trail
  | [] => []
  | name :: names => (name, root.get? (names.reverse ++ [name])) :: along root names

theorem place_along (root : FileNode) (names : List String) : (along root names).place = names.reverse := by
  induction names with
  | nil => rfl
  | cons name names ih =>
    rw [place] at ih ⊢
    rw [along, List.map_cons, List.reverse_cons, ih, List.reverse_cons]

theorem along_injective {root : FileNode} {names names' : List String}
    (same : along root names = along root names') : names' = names := by
  have places := congrArg place same
  rw [place_along, place_along] at places
  exact (List.reverse_inj.1 places).symm

theorem tail_along (root : FileNode) (names : List String) : (along root names).tail = along root names.tail := by
  cases names <;> rfl

end Trail

namespace FileTree

variable {t t' : FileTree} {path : String} {names place : List String} {changed : List String → Prop}

theorem nodeAt_along (t : FileTree) (names : List String) :
    t.nodeAt (.along t.root names) = t.root.get? names.reverse := by
  cases names with
  | nil => rfl
  | cons name names =>
    rw [List.reverse_cons]
    rfl

/-- What the names lead to, from the end, lies in a directory. -/
def Inside (t : FileTree) : List String → Prop
  | [] => True
  | _ :: names => ∃ entries, t.root.get? names.reverse = some (.directory entries)

theorem inside_of_stands {node : FileNode} (stands : t.root.get? names.reverse = some node) :
    t.Inside names := by
  cases names with
  | nil => trivial
  | cons name names =>
    rw [List.reverse_cons, FileNode.get?_append] at stands
    obtain ⟨outer, found, below⟩ := Option.bind_eq_some_iff.1 stands
    obtain ⟨entries, -, rfl, -, -⟩ := FileNode.exists_of_get?_cons below
    exact ⟨entries, found⟩

theorem Inside.tail (inside : t.Inside names) : t.Inside names.tail := by
  cases names with
  | nil => trivial
  | cons name names =>
    obtain ⟨entries, directory⟩ := inside
    exact inside_of_stands directory

/-- The path leads to the place with these names, given from its end. -/
structure Leads (t : FileTree) (path : String) (names : List String) : Prop where
  located : t.locate path = .ok (.along t.root names)
  inside : t.Inside names

/-- From `t` to `t'` things may change at certain places where no directory stood. What stood elsewhere
survives. -/
structure SparesBut (changed : List String → Prop) (t t' : FileTree) : Prop where
  workingDirectory : t'.workingDirectory = t.workingDirectory
  free {place : List String} (entries : List (String × FileNode)) :
    changed place → t.root.get? place ≠ some (.directory entries)
  stands {place : List String} {node : FileNode} : ¬ changed place → t.root.get? place = some node →
    ∃ node', t'.root.get? place = some node' ∧ node.Survives node'

abbrev Grows : FileTree → FileTree → Prop :=
  SparesBut fun _ => False

namespace SparesBut

theorem directory (spares : SparesBut changed t t') {entries : List (String × FileNode)}
    (directory : t.root.get? place = some (.directory entries)) :
    ∃ entries', t'.root.get? place = some (.directory entries') := by
  obtain ⟨node, stands, survives⟩ := spares.stands (fun at' => spares.free entries at' directory) directory
  cases survives with
  | refl => exact ⟨_, stands⟩
  | directory => exact ⟨_, stands⟩

theorem file (spares : SparesBut changed t t') {text : Option String} (elsewhere : ¬ changed place)
    (file : t.root.get? place = some (.file text)) : t'.root.get? place = some (.file text) := by
  obtain ⟨node, stands, survives⟩ := spares.stands elsewhere file
  cases survives
  exact stands

theorem inside (spares : SparesBut changed t t') (inside : t.Inside names) : t'.Inside names := by
  cases names with
  | nil => trivial
  | cons name names =>
    obtain ⟨entries, directory⟩ := inside
    exact spares.directory directory

theorem exists_walk (spares : SparesBut changed t t') {steps : List String} {trail : Trail}
    (inside : t.Inside names) (walked : t.walk (.along t.root names) steps = .ok trail) :
    ∃ names', trail = .along t.root names' ∧ t.Inside names' ∧
      t'.walk (.along t'.root names) steps = .ok (.along t'.root names') := by
  induction steps generalizing names with
  | nil =>
    cases walked
    exact ⟨names, rfl, inside, rfl⟩
  | cons name steps ih =>
    unfold walk at walked ⊢
    rw [nodeAt_along] at walked ⊢
    cases stands : t.root.get? names.reverse with
    | none => simp [stands] at walked
    | some node =>
      cases node with
      | file | program => simp [stands] at walked
      | directory entries =>
        obtain ⟨entries', stands'⟩ := spares.directory stands
        simp only [stands, stands', Trail.tail_along] at walked ⊢
        by_cases here : name = "."
        · simp only [here, if_true] at walked ⊢
          exact ih inside walked
        by_cases up : name = ".."
        · simp only [up, if_true, show ¬ ".." = "." by decide, if_false] at walked ⊢
          exact ih inside.tail walked
        by_cases long : nameLimit < name.utf8ByteSize
        · simp [here, up, long] at walked
        · simp only [here, up, long, if_false] at walked ⊢
          rw [← FileNode.get?_concat stands name] at walked
          rw [← FileNode.get?_concat stands' name]
          exact @ih (name :: names) ⟨entries, stands⟩ walked

theorem refl (t : FileTree) : Grows t t :=
  ⟨rfl, fun _ => False.elim, fun _ stands => ⟨_, stands, .refl _⟩⟩

theorem trans {t'' : FileTree} (first : Grows t t')
    (second : Grows t' t'') : Grows t t'' := by
  refine ⟨second.workingDirectory.trans first.workingDirectory, fun _ => False.elim, fun none stands => ?_⟩
  obtain ⟨node, stands, survives⟩ := first.stands none stands
  obtain ⟨node', stands', survives'⟩ := second.stands none stands
  exact ⟨node', stands', survives.trans survives'⟩

theorem of_none (spares : SparesBut (· = place) t t') (nothing : t.root.get? place = none) :
    Grows t t' := by
  refine ⟨spares.workingDirectory, fun _ => False.elim, fun _ stands => spares.stands ?_ stands⟩
  rintro rfl
  cases nothing.symm.trans stands

end SparesBut

def IsPath (path : String) : Prop :=
  '\x00' ∉ path.toList ∧ path.isEmpty = false ∧ path.utf8ByteSize < pathLimit

instance (path : String) : Decidable (IsPath path) :=
  inferInstanceAs (Decidable (_ ∧ _))

theorem locate_eq_ok_iff {trail : Trail} : t.locate path = .ok trail ↔
    IsPath path ∧ t.walk [] (t.stepsFromRoot path) = .ok trail := by
  unfold locate IsPath
  rw [String.contains_char_eq]
  by_cases nul : '\x00' ∈ path.toList
  · simp [nul]
  by_cases empty : path.isEmpty
  · simp [nul, empty]
  by_cases long : pathLimit ≤ path.utf8ByteSize
  · simp [nul, empty, long, Nat.not_lt.2 long]
  · simp [nul, empty, long, Nat.lt_of_not_le long]

theorem exists_leads {trail : Trail} (located : t.locate path = .ok trail) :
    ∃ names, trail = .along t.root names ∧ t.Leads path names := by
  obtain ⟨-, walked⟩ := locate_eq_ok_iff.1 located
  obtain ⟨names, rfl, inside, -⟩ := (SparesBut.refl t).exists_walk (show t.Inside [] from trivial) walked
  exact ⟨names, rfl, located, inside⟩

theorem leads_of_steps (steps : List String) (isPath : IsPath path)
    (parts : Text.Path.isAbsolute path = false ∧ Text.Path.steps path = steps)
    (walked : t.walk [] (t.workingDirectory ++ steps) = .ok (.along t.root names)) : t.Leads path names := by
  have steps : t.stepsFromRoot path = t.workingDirectory ++ steps := by simp [stepsFromRoot, parts]
  obtain ⟨names', same, leads⟩ := exists_leads (locate_eq_ok_iff.2 ⟨isPath, steps ▸ walked⟩)
  exact Trail.along_injective same ▸ leads

theorem Leads.mono (leads : t.Leads path names) (spares : SparesBut changed t t') : t'.Leads path names := by
  obtain ⟨isPath, walked⟩ := locate_eq_ok_iff.1 leads.located
  obtain ⟨names', same, -, walked'⟩ := spares.exists_walk (show t.Inside [] from trivial) walked
  obtain rfl := Trail.along_injective same
  refine ⟨locate_eq_ok_iff.2 ⟨isPath, ?_⟩, spares.inside leads.inside⟩
  rw [stepsFromRoot, spares.workingDirectory]
  exact walked'

theorem Leads.unique {names' : List String} (leads : t.Leads path names) (leads' : t.Leads path names') :
    names' = names :=
  Trail.along_injective (Except.ok.inj (leads.located.symm.trans leads'.located))

section put

variable {new : FileNode}

theorem put_along (t : FileTree) (names : List String) (new : FileNode) :
    t.put (.along t.root names) new = { t with root := t.root.put names.reverse new } := by
  rw [put, Trail.place_along]

theorem get?_put (inside : t.Inside names) (new : FileNode) :
    (t.put (.along t.root names) new).root.get? names.reverse = some new := by
  rw [put_along]
  cases names with
  | nil => rfl
  | cons name names =>
    obtain ⟨entries, directory⟩ := inside
    rw [List.reverse_cons]
    exact FileNode.get?_put directory name new

theorem sparesBut_put (inside : t.Inside names)
    (free : ∀ entries, t.root.get? names.reverse ≠ some (.directory entries)) (new : FileNode) :
    SparesBut (· = names.reverse) t (t.put (.along t.root names) new) := by
  rw [put_along]
  refine ⟨rfl, fun entries same => same ▸ free entries, fun {place node} other stands => ?_⟩
  cases names with
  | nil =>
    cases place with
    | nil => exact absurd rfl other
    | cons name rest =>
      obtain ⟨entries, -, root, -, -⟩ := FileNode.exists_of_get?_cons stands
      exact absurd (congrArg some root) (free entries)
  | cons name names =>
    obtain ⟨entries, directory⟩ := inside
    rw [List.reverse_cons] at free other ⊢
    rw [FileNode.get?_concat directory] at free
    exact FileNode.exists_get?_put directory free other stands new

end put

/-- The path leads to a file with this text. -/
def Holds (t : FileTree) (path text : String) : Prop :=
  ∃ names, t.Leads path names ∧ t.root.get? names.reverse = some (.file (some text))

theorem Leads.holds_iff (leads : t.Leads path names) {text : String} :
    t.Holds path text ↔ t.root.get? names.reverse = some (.file (some text)) := by
  constructor
  · rintro ⟨names', leads', file⟩
    rwa [leads.unique leads'] at file
  · exact fun file => ⟨names, leads, file⟩

theorem Holds.grows {text : String} (holds : t.Holds path text) (grows : Grows t t') : t'.Holds path text := by
  obtain ⟨names, leads, file⟩ := holds
  exact ⟨names, leads.mono grows, grows.file id file⟩

def SamePlace (t : FileTree) (path path' : String) : Prop :=
  ∃ names, t.Leads path names ∧ t.Leads path' names

theorem SamePlace.grows {path' : String} (same : t.SamePlace path path') (grows : Grows t t') :
    t'.SamePlace path path' := by
  obtain ⟨names, leads, leads'⟩ := same
  exact ⟨names, leads.mono grows, leads'.mono grows⟩

section steps

variable {α β : Type}

theorem run_get_bind (next : FileTree → FileM α) (t : FileTree) :
    (get >>= next).run.run t = (next t).run.run t := rfl

theorem run_lift_bind (result : Except FileError β) (next : β → FileM α) (t : FileTree) :
    ((liftM result : FileM β) >>= next).run.run t = match result with
      | .ok a => (next a).run.run t
      | .error e => (.error e, t) := by
  cases result <;> rfl

theorem exists_run_readText (path : String) (t : FileTree) :
    ∃ answer, (readText path).run.run t = (answer, t) ∧ ∀ text, answer = .ok text ↔ t.Holds path text := by
  unfold readText
  rw [run_get_bind, run_lift_bind]
  cases located : t.locate path with
  | error e =>
    refine ⟨.error e, rfl, fun text => ⟨nofun, fun ⟨names, leads, _⟩ => ?_⟩⟩
    cases located.symm.trans leads.located
  | ok trail =>
    obtain ⟨names, rfl, leads⟩ := exists_leads located
    simp only [nodeAt_along, leads.holds_iff]
    rcases t.root.get? names.reverse with _ | entries | (_ | text) | status <;>
      exact ⟨_, rfl, by simp⟩

theorem exists_run_runProgram (path : String) (t : FileTree) :
    ∃ answer, (runProgram path).run.run t = (answer, t) := by
  unfold runProgram
  rw [run_get_bind, run_lift_bind]
  cases t.locateProgram path with
  | error e => exact ⟨.error e, rfl⟩
  | ok trail =>
    simp only
    rcases t.nodeAt trail with _ | entries | text | status <;> exact ⟨_, rfl⟩

theorem run_writeText (leads : t.Leads path names) (text : String) : (writeText path text).run.run t =
    match t.root.get? names.reverse with
    | some (.directory _) => (.error .isDirectory, t)
    | some (.program _) => (.error .permissionDenied, t)
    | _ => (.ok (), t.put (.along t.root names) (.file (some text))) := by
  unfold writeText
  rw [run_get_bind, run_lift_bind, leads.located]
  simp only [nodeAt_along]
  rcases t.root.get? names.reverse with _ | entries | old | status <;> rfl

theorem run_makeDirectory (leads : t.Leads path names) : (makeDirectory path).run.run t =
    match t.root.get? names.reverse with
    | none => (.ok (), t.put (.along t.root names) (.directory []))
    | some _ => (.error .alreadyExists, t) := by
  unfold makeDirectory
  rw [run_get_bind, run_lift_bind, leads.located]
  simp only [nodeAt_along]
  rcases t.root.get? names.reverse with _ | node <;> rfl

theorem exists_run_writeText (path text : String) (t : FileTree) :
    (∃ reason, (writeText path text).run.run t = (.error reason, t)) ∨
      ∃ names, t.Leads path names ∧ (∀ entries, t.root.get? names.reverse ≠ some (.directory entries)) ∧
        (writeText path text).run.run t = (.ok (), t.put (.along t.root names) (.file (some text))) := by
  cases located : t.locate path with
  | error e =>
    unfold writeText
    rw [run_get_bind, run_lift_bind, located]
    exact .inl ⟨e, rfl⟩
  | ok trail =>
    obtain ⟨names, rfl, leads⟩ := exists_leads located
    have run := run_writeText leads text
    cases stands : t.root.get? names.reverse with
    | none =>
      rw [stands] at run
      exact .inr ⟨names, leads, by simp [stands], run⟩
    | some node =>
      rw [stands] at run
      cases node with
      | directory | program => exact .inl ⟨_, run⟩
      | file => exact .inr ⟨names, leads, by simp [stands], run⟩

theorem exists_run_makeDirectory (path : String) (t : FileTree) :
    (∃ reason, (makeDirectory path).run.run t = (.error reason, t)) ∨
      ∃ names, t.Leads path names ∧ t.root.get? names.reverse = none ∧
        (makeDirectory path).run.run t = (.ok (), t.put (.along t.root names) (.directory [])) := by
  cases located : t.locate path with
  | error e =>
    unfold makeDirectory
    rw [run_get_bind, run_lift_bind, located]
    exact .inl ⟨e, rfl⟩
  | ok trail =>
    obtain ⟨names, rfl, leads⟩ := exists_leads located
    have run := run_makeDirectory leads
    cases stands : t.root.get? names.reverse with
    | none =>
      rw [stands] at run
      exact .inr ⟨names, leads, stands, run⟩
    | some node =>
      rw [stands] at run
      exact .inl ⟨_, run⟩

def OnlyAdds (step : FileM α) : Prop :=
  ∀ t, Grows t (step.run.run t).2

namespace OnlyAdds

variable {step : FileM α}

theorem pure (a : α) : OnlyAdds (Pure.pure a : FileM α) := SparesBut.refl

theorem get : OnlyAdds get := SparesBut.refl

theorem throw (reason : FileError) : OnlyAdds (MonadExcept.throw reason : FileM α) := SparesBut.refl

theorem bind {next : α → FileM β} (first : OnlyAdds step) (second : ∀ a, OnlyAdds (next a)) :
    OnlyAdds (step >>= next) := by
  intro t
  have grows := first t
  obtain ⟨answer, t', run⟩ : ∃ answer t', step.run.run t = (answer, t') := ⟨_, _, rfl⟩
  rw [ExceptT.run_bind, StateT.run_bind, run]
  rw [run] at grows
  cases answer with
  | error => exact grows
  | ok a => exact grows.trans (second a t')

theorem tryCatch {handle : FileError → FileM α} (first : OnlyAdds step)
    (second : ∀ reason, OnlyAdds (handle reason)) : OnlyAdds (MonadExcept.tryCatch step handle) := by
  intro t
  have grows := first t
  obtain ⟨answer, t', run⟩ : ∃ answer t', step.run.run t = (answer, t') := ⟨_, _, rfl⟩
  rw [ExceptT.run_tryCatch, StateT.run_bind, run]
  rw [run] at grows
  cases answer with
  | error reason => exact grows.trans (second reason t')
  | ok a => exact grows

end OnlyAdds

theorem onlyAdds_makeDirectory (path : String) : OnlyAdds (makeDirectory path) := by
  intro t
  rcases exists_run_makeDirectory path t with ⟨reason, run⟩ | ⟨names, leads, nothing, run⟩
  · rw [run]
    exact .refl t
  · rw [run]
    refine (sparesBut_put leads.inside (fun entries directory => ?_) (.directory [])).of_none nothing
    cases nothing.symm.trans directory

theorem onlyAdds_ensureDirectory (path : String) : OnlyAdds (ensureDirectory path) := by
  refine .tryCatch (onlyAdds_makeDirectory path) fun reason => .bind .get fun t => ?_
  split
  · exact .pure ()
  · exact .throw reason

theorem onlyAdds_ensureDirectories (paths : List String) : OnlyAdds (ensureDirectories paths) := by
  induction paths with
  | nil => exact .pure ()
  | cons path outer ih =>
    refine .tryCatch (onlyAdds_ensureDirectory path) fun reason => ?_
    split
    · exact .bind ih fun _ => onlyAdds_ensureDirectory path
    · exact .throw _

/-- What is written can be read back, and every other file keeps its text. -/
theorem holds_of_writeText {text : String} (wrote : (host.writeText path text).run t = (.ok (), t')) :
    t'.Holds path text ∧ ∀ other old, t.Holds other old →
      t'.Holds other old ∨ t'.SamePlace other path ∧ t'.Holds other text := by
  rcases exists_run_writeText path text t with ⟨reason, run⟩ | ⟨names, leads, free, run⟩
  · cases run.symm.trans wrote
  · cases run.symm.trans wrote
    have spares := sparesBut_put leads.inside free (.file (some text))
    have written := get?_put leads.inside (.file (some text))
    have leadsNow := leads.mono spares
    refine ⟨⟨names, leadsNow, written⟩, ?_⟩
    rintro other old ⟨names', leads', file⟩
    by_cases same : names' = names
    · subst same
      exact .inr ⟨⟨names', leads'.mono spares, leadsNow⟩, names', leads'.mono spares, written⟩
    · exact .inl ⟨names', leads'.mono spares, spares.file (fun at' => same (List.reverse_inj.1 at')) file⟩

theorem eq_of_readText {answer : Except FileError String}
    (read : (host.readText path).run t = (answer, t')) : t' = t := by
  obtain ⟨_, run, -⟩ := exists_run_readText path t
  cases run.symm.trans read
  rfl

theorem readText_eq_ok_iff {text : String} :
    (host.readText path).run t = (.ok text, t') ↔ t.Holds path text ∧ t' = t := by
  obtain ⟨answer, run, holds⟩ := exists_run_readText path t
  constructor
  · intro read
    cases run.symm.trans read
    exact ⟨(holds text).1 rfl, rfl⟩
  · rintro ⟨stands, rfl⟩
    rw [(holds text).2 stands] at run
    exact run

theorem eq_of_runProgram {program : String} {arguments : List String} {answer : Except FileError Nat}
    (ran : (host.runProgram program arguments).run t = (answer, t')) : t' = t := by
  obtain ⟨_, run⟩ := exists_run_runProgram program t
  cases run.symm.trans ran
  rfl

theorem eq_of_writeText_error {text : String} {reason : FileError}
    (refused : (host.writeText path text).run t = (.error reason, t')) : t' = t := by
  rcases exists_run_writeText path text t with ⟨_, run⟩ | ⟨_, -, -, run⟩
  · cases run.symm.trans refused
    rfl
  · cases run.symm.trans refused

theorem grows_of_createParents {answer : Except FileError Unit}
    (made : (host.createParents path).run t = (answer, t')) : Grows t t' := by
  have grows := onlyAdds_ensureDirectories (Text.Path.enclosing path) t
  rwa [show (ensureDirectories (Text.Path.enclosing path)).run.run t = (answer, t') from made] at grows

theorem run_createParents (first : String) (outer : List String)
    (enclosing : Text.Path.enclosing path = first :: outer) (leads : t.Leads first names)
    (nothing : t.root.get? names.reverse = none) :
    (host.createParents path).run t = (.ok (), t.put (.along t.root names) (.directory [])) := by
  have made := run_makeDirectory leads
  rw [nothing] at made
  change (createParents path).run.run t = _
  rw [createParents, enclosing, ensureDirectories, ExceptT.run_tryCatch, StateT.run_bind, ensureDirectory,
    ExceptT.run_tryCatch, StateT.run_bind, made]
  rfl

theorem run_writeText_of_none (leads : t.Leads path names) (nothing : t.root.get? names.reverse = none)
    (text : String) : (host.writeText path text).run t =
      (.ok (), t.put (.along t.root names) (.file (some text))) := by
  have run := run_writeText leads text
  rw [nothing] at run
  exact run

theorem run_runProgram {name : String} {status : Nat} (trail : Trail)
    (isName : IsPath name ∧ '/' ∉ name.toList) (walked : t.walk [] ["bin", name] = .ok trail)
    (program : t.nodeAt trail = some (.program status)) (arguments : List String) :
    (host.runProgram name arguments).run t = (.ok status, t) := by
  obtain ⟨⟨noNul, nonempty, -⟩, noSlash⟩ := isName
  have located : t.locateProgram name = .ok trail := by
    simp [locateProgram, String.contains_char_eq, noNul, nonempty, noSlash, walked]
  change (runProgram name).run.run t = _
  rw [runProgram, run_get_bind, run_lift_bind, located]
  simp only [program]
  rfl

end steps

end FileTree

end BlockComputer.CommandLine
