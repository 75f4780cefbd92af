import BlockComputer.Proofs.Machine.Ground
import BlockComputer.Proofs.Machine.Independence
import Mathlib.Data.List.Induction

/-!
What the initialization does to the world.

It sets every score once, fills the memory and writes the program into it, and summons the helper
entities. It changes no block outside the memory.
-/

namespace BlockComputer.Machine

/-- The commands of an initialization. -/
inductive Initializes : Command → Prop
  | objective : Initializes .addObjective
  | score (v : Variable) (n : Int32) : Initializes (.setScore v n)
  | clear : Initializes clearMemory
  | count (a : Word) (slot : Nat) (n : Int) :
      Initializes (.setCount ⟨Layout.cell (Word.score a), slot⟩ n)
  | summon (e : Entity) : Initializes (summonOnce e)

inductive SetsScores : Command → Prop
  | objective : SetsScores .addObjective
  | score (v : Variable) (n : Int32) : SetsScores (.setScore v n)

theorem SetsScores.initializes {c : Command} : SetsScores c → Initializes c
  | .objective => .objective
  | .score v n => .score v n

theorem summonOnce_eq (e : Entity) :
    summonOnce e = .execute [.unlessHolds (.present e)] (.summon e) := rfl

theorem after_summonOnce (e : Entity) (origin : Point) (w : World) :
    (summonOnce e).after origin w =
      if (w.locate e).isSome then w else { w with entities := w.entities ++ [⟨e.tag, origin⟩] } := by
  rw [summonOnce_eq, Command.after, Command.run_execute]
  cases here : (w.locate e).isSome <;>
    simp [Qualifier.enter, Condition.holds, here, Command.after, Command.run]

theorem siteFrom_cell (a : Word) (origin : Point) :
    (Layout.cell (Word.score a)).siteFrom origin = Word.site a := by
  have nonneg : 0 ≤ (Word.score a).toInt := by
    rw [Word.toInt_score]
    omega
  have absolute : (Layout.cell (Word.score a)).siteFrom origin = (Layout.cell (Word.score a)).site :=
    Position.siteFrom_absolute _ _ _ _
  rw [absolute, Word.site_cell nonneg, Word.ofScore_score]

theorem after_setCount {a : Word} {counts : Counts} {w : World}
    (barrel : w.blocks (Word.site a) = some (.barrel counts)) {slot : Nat} (few : slot < 2) (n : Int)
    (origin : Point) :
    (Command.setCount ⟨Layout.cell (Word.score a), slot⟩ n).after origin w =
      w.setBlock (Word.site a) (.barrel (counts.set slot (Int32.ofInt n))) := by
  obtain ⟨count, here⟩ : ∃ count, counts.get? slot = some count := by
    obtain rfl | rfl : slot = 0 ∨ slot = 1 := by omega
    · exact ⟨_, rfl⟩
    · exact ⟨_, rfl⟩
  simp only [Command.after, Command.run, siteFrom_cell, World.count?, barrel, here, World.setCount]

theorem blocks_setCount_of_ne (w : World) {p q : Site} (ne : q ≠ p) (slot : Nat) (n : Int32) :
    (w.setCount p slot n).blocks q = w.blocks q := by
  unfold World.setCount
  split
  · exact World.blocks_setBlock_of_ne w ne _
  · rfl

theorem isWithin_memory_iff (p : Site) (origin : Point) :
    p.IsWithin (Layout.memoryFirst.siteFrom origin) (Layout.memoryLast.siteFrom origin) ↔ InMemory p := by
  have first : Layout.memoryFirst.siteFrom origin = ⟨0, 128, 0⟩ := Position.siteFrom_absolute _ _ _ _
  have last : Layout.memoryLast.siteFrom origin = ⟨15, 143, 15⟩ := Position.siteFrom_absolute _ _ _ _
  rw [first, last]
  simp only [Site.IsWithin, InMemory]
  omega

namespace Initializes

variable {c : Command} {origin : Point} {w : World}

theorem blocks_after (h : Initializes c) {p : Site} (outside : ¬ InMemory p) :
    (c.after origin w).blocks p = w.blocks p := by
  cases h with
  | objective | score => rfl
  | clear =>
    have notWithin := fun within => outside ((isWithin_memory_iff p origin).1 within)
    simp only [clearMemory, Command.after, Command.run, World.fill, if_neg notWithin]
  | count a slot n =>
    have ne : p ≠ Word.site a := fun same => outside (same ▸ Word.inMemory_site a)
    simp only [Command.after, Command.run, siteFrom_cell]
    split
    · exact blocks_setCount_of_ne w ne _ _
    · rfl
  | summon e =>
    rw [after_summonOnce]
    split <;> rfl

theorem eq_setScore (h : Initializes c) {v : Variable} (touched : v ∈ c.touches) : ∃ n, c = .setScore v n := by
  cases h with
  | objective | clear | count | summon => cases touched
  | score u n => exact ⟨n, by rw [List.mem_singleton.1 touched]⟩

theorem entities_after (h : Initializes c) (notSummoned : ∀ e, c ≠ summonOnce e) :
    (c.after origin w).entities = w.entities := by
  cases h with
  | objective | clear | score => rfl
  | count a slot n =>
    simp only [Command.after, Command.run, siteFrom_cell]
    split
    · unfold World.setCount
      split <;> rfl
    · rfl
  | summon e => exact absurd rfl (notSummoned e)

end Initializes

section runs

variable {cs : List Command} (setup : ∀ c ∈ cs, Initializes c) (p : Site) (w : World)

include setup

theorem blocks_runAll_of_not_inMemory {q : Site} (outside : ¬ InMemory q) :
    (w.runAll p cs).blocks q = w.blocks q :=
  World.blocks_runAll_of_kept (R := {q | ¬ InMemory q})
    (fun c mem _ _ _ outside => (setup c mem).blocks_after outside) p q outside

theorem entities_runAll (notSummoned : ∀ e, summonOnce e ∉ cs) :
    (w.runAll p cs).entities = w.entities := by
  induction cs generalizing p w with
  | nil => rfl
  | cons c cs ih =>
    rw [World.runAll_cons, ih (fun d mem => setup d (List.mem_cons_of_mem c mem)) _ _
      fun e mem => notSummoned e (List.mem_cons_of_mem c mem)]
    exact (setup c List.mem_cons_self).entities_after fun e same =>
      notSummoned e (same ▸ List.mem_cons_self)

end runs

theorem runAll_of_setsScores {cs : List Command} (plain : ∀ c ∈ cs, SetsScores c) (p : Site)
    (w : World) : (w.runAll p cs).blocks = w.blocks ∧ (w.runAll p cs).entities = w.entities := by
  induction cs generalizing p w with
  | nil => exact ⟨rfl, rfl⟩
  | cons c cs ih =>
    obtain ⟨blocks, entities⟩ := ih (fun d mem => plain d (List.mem_cons_of_mem c mem)) (p.shift 1)
      (c.after p.centre w)
    rw [World.runAll_cons, blocks, entities]
    cases plain c List.mem_cons_self with
    | objective | score => exact ⟨rfl, rfl⟩

theorem blocks_summon (es : List Entity) (p : Site) (w : World) :
    (w.runAll p (es.map summonOnce)).blocks = w.blocks := by
  induction es generalizing p w with
  | nil => rfl
  | cons e es ih =>
    rw [List.map_cons, World.runAll_cons, ih, after_summonOnce]
    split <;> rfl

theorem tags_summon {es : List Entity} (nodup : (es.map Entity.tag).Nodup) {w : World}
    (new : ∀ e ∈ es, e.tag ∉ w.entities.map Being.tag) (p : Site) :
    (w.runAll p (es.map summonOnce)).entities.map Being.tag =
      w.entities.map Being.tag ++ es.map Entity.tag := by
  induction es generalizing p w with
  | nil => simp
  | cons e es ih =>
    rw [List.map_cons, List.nodup_cons] at nodup
    obtain ⟨first, others⟩ := List.forall_mem_cons.1 new
    have absent : ¬ (w.locate e).isSome := fun here => first (World.isSome_locate_iff.1 here)
    rw [List.map_cons, World.runAll_cons, after_summonOnce, if_neg absent, ih nodup.2]
    · simp
    · intro d mem used
      simp only [List.map_append, List.map_cons, List.map_nil, List.mem_append, List.mem_singleton] at used
      rcases used with old | same
      · exact others d mem old
      · exact nodup.1 (same ▸ List.mem_map_of_mem mem)

theorem runAll_summon_of_mem {es : List Entity} {w : World}
    (old : ∀ e ∈ es, e.tag ∈ w.entities.map Being.tag) (p : Site) : w.runAll p (es.map summonOnce) = w := by
  induction es generalizing p with
  | nil => rfl
  | cons e es ih =>
    obtain ⟨first, others⟩ := List.forall_mem_cons.1 old
    rw [List.map_cons, World.runAll_cons, after_summonOnce, if_pos (World.isSome_locate_iff.2 first), ih others]

def programImage (program : List UInt16) (a : Word) : Word :=
  Word.ofScore (Int32.ofNat (program.getD a.val 0).toNat)

theorem preloadCommands_append (program : List UInt16) (word : UInt16) :
    Memory.preloadCommands (program ++ [word]) =
      Memory.preloadCommands program ++ Memory.preloadWord program.length word := by
  simp [Memory.preloadCommands, List.mapIdx_append]

theorem preloadWord_eq (a : Word) (word : UInt16) :
    Memory.preloadWord a.val word =
      let counts := Word.counts (Word.ofScore (Int32.ofNat word.toNat))
      [.setCount ⟨Layout.cell (Word.score a), 0⟩ counts.high.toInt,
        .setCount ⟨Layout.cell (Word.score a), 1⟩ counts.low.toInt] := by
  simp only [Memory.preloadWord, Word.counts_ofScore]
  rfl

theorem runAll_preloadWord {a : Word} {counts : Counts} {w : World}
    (barrel : w.blocks (Word.site a) = some (.barrel counts)) (word : UInt16) (p : Site) :
    w.runAll p (Memory.preloadWord a.val word) =
      w.setBlock (Word.site a) (.barrel (Word.counts (Word.ofScore (Int32.ofNat word.toNat)))) := by
  rw [preloadWord_eq]
  simp only [World.runAll_cons, World.runAll_nil]
  rw [after_setCount barrel (by decide), after_setCount (World.blocks_setBlock_self _ _ _) (by decide)]
  simp only [World.setBlock, Function.update_idem, Counts.set, Int32.ofInt_toInt]

theorem blocks_preload_over {program : List UInt16} (fits : program.length ≤ 4096) {w : World}
    {old : Word → Counts} (barrels : ∀ a, w.blocks (Word.site a) = some (.barrel (old a))) (p : Site) :
    ∀ a, (w.runAll p (Memory.preloadCommands program)).blocks (Word.site a) =
      some (.barrel (if a.val < program.length then Word.counts (programImage program a) else old a)) := by
  -- from the end: the last word goes to a barrel that the words before it leave alone
  induction program using List.reverseRecOn with
  | nil => exact barrels
  | append_singleton program word ih =>
    rw [List.length_append, List.length_singleton] at fits
    intro a
    let here : Word := ⟨program.length, by omega⟩
    have before := ih (by omega)
    rw [preloadCommands_append, World.runAll_append, show program.length = here.val from rfl,
      runAll_preloadWord (before here), List.length_append, List.length_singleton]
    by_cases same : a = here
    · subst same
      rw [World.blocks_setBlock_self, if_pos (Nat.lt_succ_self _)]
      simp [programImage, here]
    · have ne : Word.site a ≠ Word.site here := fun sites => same (Word.site_injective sites)
      have other : a.val ≠ program.length := fun same' => same (Fin.ext same')
      rw [World.blocks_setBlock_of_ne _ ne, before a]
      by_cases less : a.val < program.length
      · have image : programImage (program ++ [word]) a = programImage program a := by
          rw [programImage, programImage, List.getD_eq_getElem?_getD, List.getD_eq_getElem?_getD,
            List.getElem?_append_left less]
        rw [if_pos less, if_pos (by omega), image]
      · rw [if_neg less, if_neg (by omega)]

theorem blocks_preload {program : List UInt16} (fits : program.length ≤ 4096) {w : World}
    (zeros : ∀ a, w.blocks (Word.site a) = some (.barrel ⟨1, 1⟩)) (p : Site) :
    ∀ a, (w.runAll p (Memory.preloadCommands program)).blocks (Word.site a) =
      some (.barrel (Word.counts (programImage program a))) := by
  intro a
  rw [blocks_preload_over fits zeros p a]
  split
  · rfl
  · next behind =>
    rw [programImage, List.getD_eq_getElem?_getD, List.getElem?_eq_none (Nat.le_of_not_lt behind)]
    rfl

theorem exists_of_mem_preload {program : List UInt16} {c : Command}
    (mem : c ∈ Memory.preloadCommands program) : ∃ target n, c = .setCount target n := by
  obtain ⟨pair, inPairs, mem⟩ := List.mem_flatten.1 mem
  obtain ⟨i, less, rfl⟩ := List.mem_mapIdx.1 inPairs
  simp only [Memory.preloadWord, List.mem_cons, List.not_mem_nil, or_false] at mem
  obtain rfl | rfl := mem
  · exact ⟨_, _, rfl⟩
  · exact ⟨_, _, rfl⟩

theorem initializes_preload {program : List UInt16} (fits : program.length ≤ 4096) :
    ∀ c ∈ Memory.preloadCommands program, Initializes c := by
  intro c mem
  obtain ⟨pair, inPairs, mem⟩ := List.mem_flatten.1 mem
  obtain ⟨i, less, rfl⟩ := List.mem_mapIdx.1 inPairs
  have pair := preloadWord_eq ⟨i, by omega⟩ program[i]
  rw [pair] at mem
  simp only [List.mem_cons, List.not_mem_nil, or_false] at mem
  obtain rfl | rfl := mem
  · exact .count _ _ _
  · exact .count _ _ _

theorem setsScores_map_setNamed (vars : List (String × Int32)) : ∀ c ∈ vars.map setNamed, SetsScores c :=
  List.forall_mem_map.2 fun _ _ => .score _ _

theorem setsScores_initAfter (s : Session) (values : List Variable) :
    ∀ c ∈ initAfter s values, SetsScores c := by
  intro c mem
  rcases (Session.mem_added _ _).1 mem with ⟨v, -, rfl⟩ | ⟨k, -, -, rfl⟩
  · exact .score _ _
  · exact .score _ _

section boot

variable {values chosen : List Variable} {program : List UInt16}

def machineScores : List (String × Int32) :=
  memoryScores ++ registerScores ++ (hardwareAdditions []).flatMap Addition.vars

theorem names_machineScores : machineScores.map Prod.fst = machineNames := by
  simp [machineScores, machineNames, startNames, declaredNames, List.map_flatMap]

theorem vars_hardwareAdditions (values : List Variable) :
    (hardwareAdditions values).flatMap Addition.vars = (hardwareAdditions []).flatMap Addition.vars := by
  simp only [hardwareAdditions, cardAdditions, List.flatMap_append, vars_groupAdditions]

theorem init_withDisplays (values : List Variable) :
    (withDisplays {} values).init = .addObjective :: values.map fun v => setNamed (v.name, 0) := by
  simp [withDisplays, Session.declare, Session.register, Session.extendInit]

theorem initOf_eq : initOf (withDisplays {} values) chosen program =
    ((withDisplays {} values).init ++ memoryScores.map setNamed) ++ clearMemory ::
      ((startedComputer 0).helpers.map summonOnce ++ (registerScores.map setNamed
        ++ (Memory.preloadCommands program ++ initAfter (withDisplays {} values) chosen))) := by
  have helpers : (startedComputer 0).helpers = [markerNumbered 0, markerNumbered 1, markerNumbered 2] := rfl
  have tag : (withDisplays {} values).nextTag = 0 := rfl
  simp [initOf, initBefore, startCommands, helpers, tag]

theorem setsScores_start (values : List Variable) :
    ∀ c ∈ (withDisplays {} values).init ++ memoryScores.map setNamed, SetsScores c := by
  rw [init_withDisplays]
  exact List.forall_mem_append.2 ⟨List.forall_mem_cons.2 ⟨.objective, List.forall_mem_map.2
    fun _ _ => .score _ _⟩, setsScores_map_setNamed _⟩

theorem initializes_initOf (fits : program.length ≤ 4096) :
    ∀ c ∈ initOf (withDisplays {} values) chosen program, Initializes c := by
  simp only [initOf_eq, List.forall_mem_append, List.forall_mem_cons, List.forall_mem_map]
  have start := List.forall_mem_append.1 (setsScores_start values)
  exact ⟨⟨fun c mem => (start.1 c mem).initializes, fun v _ => .score _ _⟩, .clear,
    fun e _ => .summon e, fun v _ => .score _ _, initializes_preload fits,
    fun c mem => (setsScores_initAfter _ _ c mem).initializes⟩

theorem setScore_eq_setNamed {v : Variable} {n : Int32} {named : String × Int32} :
    .setScore v n = setNamed named ↔ named = (v.name, n) := by
  obtain ⟨name⟩ := v
  obtain ⟨a, m⟩ := named
  simp only [setNamed, Command.setScore.injEq, Variable.mk.injEq, Prod.mk.injEq]
  exact and_congr eq_comm eq_comm

theorem setScore_mem_map_setNamed {v : Variable} {n : Int32} {vars : List (String × Int32)} :
    .setScore v n ∈ vars.map setNamed ↔ (v.name, n) ∈ vars := by
  simp only [List.mem_map, eq_comm (b := Command.setScore v n), setScore_eq_setNamed,
    exists_eq_right]

/-- Every score that is set belongs to a display, to the machine or to a number. -/
theorem setScore_mem_initOf_iff {v : Variable} {n : Int32} :
    .setScore v n ∈ initOf (withDisplays {} values) chosen program ↔
      (v ∈ values ∧ n = 0) ∨ (v.name, n) ∈ machineScores ∨
        ∃ k ∈ hardwareNumbers chosen, v = constantNamed k ∧ n = k := by
  have displays : .setScore v n ∈ (withDisplays {} values).init ↔ v ∈ values ∧ n = 0 := by
    simp only [init_withDisplays, List.mem_cons, List.mem_map, eq_comm (b := Command.setScore v n),
      setScore_eq_setNamed, Prod.mk.injEq, reduceCtorEq, false_or]
    constructor
    · rintro ⟨⟨name⟩, mem, rfl, rfl⟩
      exact ⟨mem, rfl⟩
    · rintro ⟨mem, rfl⟩
      exact ⟨v, mem, rfl, rfl⟩
  have start (head cloner fetcher : Entity) : .setScore v n ∈ startCommands head cloner fetcher ↔
      (v.name, n) ∈ memoryScores ++ registerScores := by
    simp only [startCommands, List.mem_append, setScore_mem_map_setNamed, clearMemory, summonOnce_eq,
      List.mem_cons, List.not_mem_nil, reduceCtorEq, or_false]
  have later : .setScore v n ∈ initAfter (withDisplays {} values) chosen ↔
      (v.name, n) ∈ (hardwareAdditions []).flatMap Addition.vars ∨
        ∃ k ∈ hardwareNumbers chosen, v = constantNamed k ∧ n = k := by
    rw [initAfter, Session.mem_added, vars_hardwareAdditions]
    have none_ (k : Int32) : k ∉ (startedSession (withDisplays {} values)).constants := List.not_mem_nil
    simp only [setScore_eq_setNamed, none_, hardwareNumbers, not_false_iff, true_and, exists_eq_right,
      Command.setScore.injEq]
  have machine : (v.name, n) ∈ machineScores ↔ (v.name, n) ∈ memoryScores ++ registerScores ∨
      (v.name, n) ∈ (hardwareAdditions []).flatMap Addition.vars := List.mem_append
  have notPreloaded : .setScore v n ∉ Memory.preloadCommands program := fun mem => by
    obtain ⟨_, _, same⟩ := exists_of_mem_preload mem
    cases same
  rw [initOf, initBefore, List.mem_append, List.mem_append, List.mem_append, displays, start, later,
    machine, or_iff_left notPreloaded, or_assoc, or_assoc]

theorem nodup_names_machineScores : (machineScores.map Prod.fst).Nodup :=
  names_machineScores ▸ nodup_machineNames

theorem isWord_machineScores : ∀ v ∈ machineScores, (Variable.mk v.1).isWord := by
  decide +kernel

theorem setScore_unique (displays : ∀ v ∈ values, Variable.IsDisplay v) {v : Variable} {m n : Int32}
    (first : .setScore v m ∈ initOf (withDisplays {} values) chosen program)
    (second : .setScore v n ∈ initOf (withDisplays {} values) chosen program) : m = n := by
  have names {m : Int32} (mem : (v.name, m) ∈ machineScores) : v.name ∈ machineNames :=
    names_machineScores ▸ List.mem_map_of_mem (f := Prod.fst) mem
  have free := free_machineNames displays
  have apart (inValues : v ∈ values) : v.name ∉ machineNames := fun taken => by
    refine free.2 _ taken ?_
    simp only [withDisplays, Session.names_declare, List.map_map, List.nil_append]
    exact List.mem_map_of_mem (f := Variable.name) inValues
  have word {k : Int32} (isWord : v.isWord) : v ≠ constantNamed k := Variable.ne_constantNamed isWord k
  have machine {m : Int32} (mem : (v.name, m) ∈ machineScores) : v.isWord :=
    isWord_machineScores _ mem
  rcases setScore_mem_initOf_iff.1 first with ⟨display, rfl⟩ | listed | ⟨k, -, number, rfl⟩ <;>
    rcases setScore_mem_initOf_iff.1 second with ⟨display', rfl⟩ | listed' | ⟨k', -, number', rfl⟩
  · rfl
  · exact absurd (names listed') (apart display)
  · exact absurd number' (word (displays v display).isLoose.1)
  · exact absurd (names listed) (apart display')
  · exact congrArg Prod.snd (List.inj_on_of_nodup_map nodup_names_machineScores listed listed' rfl)
  · exact absurd number' (word (machine listed))
  · exact absurd number (word (displays v display').isLoose.1)
  · exact absurd number (word (machine listed'))
  · exact constantNamed_injective (number.symm.trans number')

theorem scores_boot (displays : ∀ v ∈ values, Variable.IsDisplay v) (fits : program.length ≤ 4096)
    {v : Variable} {n : Int32} (mem : .setScore v n ∈ initOf (withDisplays {} values) chosen program)
    (p : Site) (w : World) :
    (w.runAll p (initOf (withDisplays {} values) chosen program)).scores v = some n := by
  refine World.scores_runAll_of_mem mem (fun c other touched => ?_) p w
  obtain ⟨m, rfl⟩ := (initializes_initOf fits c other).eq_setScore touched
  rw [setScore_unique displays other mem]

theorem score_boot (displays : ∀ v ∈ values, Variable.IsDisplay v) (fits : program.length ≤ 4096)
    {v : Variable} {n : Int32} (mem : .setScore v n ∈ initOf (withDisplays {} values) chosen program)
    (p : Site) (w : World) :
    (w.runAll p (initOf (withDisplays {} values) chosen program)).score v = n := by
  rw [World.score, scores_boot displays fits mem, Option.getD_some]

/-- The memory holds the program in the end. -/
theorem cells_boot (fits : program.length ≤ 4096) (p : Site) (w : World) (a : Word) :
    (w.runAll p (initOf (withDisplays {} values) chosen program)).blocks (Word.site a) =
      some (.barrel (Word.counts (programImage program a))) := by
  simp only [initOf_eq, World.runAll_append, World.runAll_cons]
  rw [(runAll_of_setsScores (setsScores_initAfter _ _) _ _).1]
  refine blocks_preload fits (fun b => ?_) _ a
  rw [(runAll_of_setsScores (setsScores_map_setNamed _) _ _).1, blocks_summon]
  exact if_pos ((isWithin_memory_iff _ _).2 (Word.inMemory_site b))

theorem exists_entities_boot (fits : program.length ≤ 4096) (p : Site) (w : World) :
    ∃ (q : Site) (u : World), u.entities = w.entities ∧
      (w.runAll p (initOf (withDisplays {} values) chosen program)).entities =
        (u.runAll q ((startedComputer 0).helpers.map summonOnce)).entities := by
  have notSummoned (e : Entity) : summonOnce e ∉ Memory.preloadCommands program := fun mem => by
    obtain ⟨_, _, same⟩ := exists_of_mem_preload mem
    cases same
  have started := (runAll_of_setsScores (setsScores_start values) p w).2
  have cleared (origin : Point) (u : World) : (clearMemory.after origin u).entities = u.entities := rfl
  rw [initOf_eq, World.runAll_append, World.runAll_cons, World.runAll_append, World.runAll_append,
    World.runAll_append, (runAll_of_setsScores (setsScores_initAfter _ _) _ _).2,
    entities_runAll (initializes_preload fits) _ _ notSummoned,
    (runAll_of_setsScores (setsScores_map_setNamed _) _ _).2]
  exact ⟨_, _, (cleared _ _).trans started, rfl⟩

theorem tags_boot (fits : program.length ≤ 4096) (p : Site) {w : World} (empty : w.entities = []) :
    (w.runAll p (initOf (withDisplays {} values) chosen program)).entities.map Being.tag =
      (startedComputer 0).helpers.map Entity.tag := by
  obtain ⟨q, u, same, entities⟩ := @exists_entities_boot values chosen program fits p w
  rw [entities, tags_summon (by decide), same, empty]
  · rfl
  · intro e _
    rw [same, empty]
    exact List.not_mem_nil

theorem entities_boot (fits : program.length ≤ 4096) (p : Site) {w : World}
    (there : ∀ e ∈ (startedComputer 0).helpers, e.tag ∈ w.entities.map Being.tag) :
    (w.runAll p (initOf (withDisplays {} values) chosen program)).entities = w.entities := by
  obtain ⟨q, u, same, entities⟩ := @exists_entities_boot values chosen program fits p w
  rw [entities, runAll_summon_of_mem (same ▸ there), same]

end boot

end BlockComputer.Machine
