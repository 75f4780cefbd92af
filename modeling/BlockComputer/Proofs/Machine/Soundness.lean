import BlockComputer.Proofs.Machine.Booting
import BlockComputer.Proofs.Machine.Steadiness

/-!
What holds between the cycles of a machine, from its initialization on.

The initialization leaves a world that shows a state of the machine, with the program in its memory and
no mark. Each run of the primary chain leads to the next state, so a world with a sound state is there
after every number of cycles, whatever the program does to itself.
-/

namespace BlockComputer.Machine

def worldAfter (limit : Nat) (listing : Listing) : (cycles : Nat) → Option World
  | 0 => World.runChain limit ⟨0, 0, 0⟩ (World.ofListing listing)
  | cycles + 1 => (worldAfter limit listing cycles).bind (World.runChain limit ⟨0, 0, 1⟩)

structure HasCompared (w : World) (a b : Int32) : Prop where
  lf : w.score ⟨"LF"⟩ = verdict (a < b)
  le : w.score ⟨"LE"⟩ = verdict (a ≤ b)
  eq : w.score ⟨"EQ"⟩ = verdict (a = b)
  ne : w.score ⟨"NE"⟩ = verdict (a ≠ b)
  ge : w.score ⟨"GE"⟩ = verdict (b ≤ a)
  gt : w.score ⟨"GT"⟩ = verdict (b < a)

theorem HasCompared.of_compares {w : World} {s : State} {a b : Int32} (compares : s.Compares a b)
    (same : ∀ v ∈ flagVariables, w.score v = s.scores v) : HasCompared w a b := by
  have flag {v : Variable} (mem : v ∈ flagVariables) : w.score v = (s.setFlags a b).scores v :=
    (same v mem).trans (compares v mem)
  constructor <;> rw [flag (by decide)] <;> simp [State.setFlags, State.scores_setScore]

/-- What holds of the world of a machine between two cycles. -/
structure IsSound (w : World) (listing : Listing) (constants : List Int32) : Prop where
  unmarked : w.score ⟨"jumped"⟩ = 0
  opcode : 0 ≤ (w.score ⟨"opcode"⟩).toInt ∧ (w.score ⟨"opcode"⟩).toInt < 4096
  barrels : ∀ p, InMemory p → ∃ counts,
    w.blocks p = some (.barrel counts) ∧ IsCount counts.high ∧ IsCount counts.low
  flags : (∀ flag ∈ flagVariables, w.score flag = 0) ∨
    (∃ a b, HasCompared w a b) ∧ w.score ⟨"EQ"⟩ = 1 - w.score ⟨"NE"⟩ ∧
      w.score ⟨"GE"⟩ = 1 - w.score ⟨"LF"⟩ ∧ w.score ⟨"GT"⟩ = 1 - w.score ⟨"LE"⟩ ∧
      (w.score ⟨"LE"⟩ = 1 ↔ w.score ⟨"LF"⟩ = 1 ∨ w.score ⟨"EQ"⟩ = 1)
  helpers : ∀ e ∈ (startedComputer 0).helpers, (w.entities.map Being.tag).count e.tag = 1
  others : w.entities.length = (startedComputer 0).helpers.length
  constants : ∀ k ∈ constants, w.score (constantNamed k) = k
  units : ∀ u ∈ listing, w.blocks u.position.site = some (.unit u.kind u.command)

/-- A machine without entities, as it is built in a new session with print cards of these values. -/
structure Ground.IsNew (G : Ground) (values chosen : List Variable) (program : List UInt16) : Prop where
  displays : ∀ v ∈ values, Variable.IsDisplay v
  inside : chosen ⊆ values
  fits : program.length ≤ 4096
  cards : G.cards = chosen.map printCard
  tags : G.tags = (startedComputer 0).helpers.map Entity.tag
  init : G.parts.init = initOf (withDisplays {} values) chosen program
  known : ∀ k ∈ G.constants, k ∈ hardwareNumbers chosen
  length_le : G.parts.init.length + G.parts.primary.length ≤ G.listing.length

namespace Ground

variable {G : Ground} {values chosen : List Variable} {program : List UInt16}

theorem blocks_init (i : Nat) : (World.ofListing G.listing).blocks (Site.shift ⟨0, 0, 0⟩ i) =
    G.parts.init[i]?.map (Block.unit (kindAt .impulse i)) := by
  have stands : StandsAt G.parts.groups (initChain G.parts.init) ⟨0, 0, 0⟩ :=
    ⟨(Layout.mainGroup, G.parts.main), by simp [Parts.groups], 0, rfl, rfl⟩
  exact World.blocks_ofListing G.laidOut.placed G.parts.atDifferentHeights_groups stands i

theorem runs_init (setup : ∀ c ∈ G.parts.init, Initializes c) {w : World}
    (stands : ∀ i, w.blocks (Site.shift ⟨0, 0, 0⟩ i) = G.parts.init[i]?.map (Block.unit (kindAt .impulse i)))
    {limit : Nat} (enough : G.parts.init.length < limit) :
    World.runChain limit ⟨0, 0, 0⟩ w = some (w.runAll ⟨0, 0, 0⟩ G.parts.init) := by
  have low (i : Nat) : ¬ InMemory (Site.shift ⟨0, 0, 0⟩ i) := not_inMemory_of_low (by decide : (0 : Int) < 128)
  have holds : w.HoldsUnits ⟨0, 0, 0⟩ .impulse 0 G.parts.init := fun i less => by
    rw [Nat.zero_add, stands, List.getElem?_eq_getElem less]
    rfl
  have ran := World.runUnits_of_kept holds fun c mem origin u i => (setup c mem).blocks_after (low i)
  rw [Site.shift_zero] at ran
  refine World.runFrom_of_runUnits ran ?_ enough
  rw [World.commandAt?, blocks_runAll_of_not_inMemory setup _ _ (low _), stands, Nat.zero_add,
    List.getElem?_eq_none (Nat.le_refl _)]
  rfl

theorem machineConstants_subset (values : List Variable) : machineConstants ⊆ hardwareNumbers values := by
  have needed : machineConstants ⊆ (arithmeticAdditions ++ jumpAdditions ++ constantAdditions
      ++ bankAdditions ++ primaryAdditions).flatMap Addition.numbers := by decide +kernel
  intro k mem
  have found := needed mem
  simp only [hardwareNumbers, hardwareAdditions, List.flatMap_append, List.mem_append] at found ⊢
  tauto

theorem exists_isNew (displays : ∀ v ∈ values, Variable.IsDisplay v) (inside : chosen ⊆ values)
    (room : values.length < 2 ^ 30) (few : chosen.length ≤ cardSlots)
    (fits : program.length ≤ Layout.memoryWords) :
    ∃ (G : Ground) (s' : Session), G.IsNew values chosen program ∧ G.constants = s'.constants ∧
      perform (build (chosen.map printCard) program) (withDisplays {} values) =
        (.ok G.listing, s') := by
  have free := free_machineNames displays
  have short : (withDisplays {} values).init.length ≤ 2 ^ 30 := by
    rw [init_withDisplays, List.length_cons, List.length_map]
    exact room
  obtain ⟨p, computer, built⟩ := exists_build_eq few free short
  obtain ⟨listing, s', rfl, built, constants, laidOut⟩ := built program fits
  have numbers (k : Int32) : k ∈ s'.constants ↔ k ∈ hardwareNumbers chosen := by
    rw [constants, show (withDisplays {} values).constants = [] from rfl]
    exact or_iff_right List.not_mem_nil
  refine ⟨⟨chosen.map printCard, program, _, _, laidOut, s'.constants,
    fun k mem => (numbers k).2 (machineConstants_subset chosen mem), p.computer.helpers.map Entity.tag,
    fun e mem => List.mem_map_of_mem mem⟩, s', ⟨displays, inside, fits, rfl, ?_, rfl,
    fun k => (numbers k).1, ?_⟩, rfl, built⟩
  · exact congrArg (fun c : Computer => c.helpers.map Entity.tag) computer
  · simp only [Parts.hardwareUnits, List.length_append, Chain.placed, List.length_mapIdx, initChain,
      Chain.length]
    omega

namespace IsNew

variable (new : G.IsNew values chosen program)

include new

theorem initializes : ∀ c ∈ G.parts.init, Initializes c :=
  new.init ▸ initializes_initOf new.fits

/-- The initialization leaves the machine with the program in its memory. -/
theorem shows_start :
    let w := (World.ofListing G.listing).runAll ⟨0, 0, 0⟩ G.parts.init
    G.Shows w ⟨w.score, programImage program⟩ ∧ State.IsSteady ⟨w.score, programImage program⟩ := by
  intro w
  have after : w = (World.ofListing G.listing).runAll ⟨0, 0, 0⟩
      (initOf (withDisplays {} values) chosen program) := by rw [← new.init]
  have started {v : Variable} {n : Int32} (mem : (v.name, n) ∈ machineScores) : w.score v = n := by
    rw [after]
    exact score_boot new.displays new.fits (setScore_mem_initOf_iff.2 (.inr (.inl mem))) _ _
  have numbered {k : Int32} (mem : k ∈ G.constants) : w.score (constantNamed k) = k := by
    rw [after]
    exact score_boot new.displays new.fits
      (setScore_mem_initOf_iff.2 (.inr (.inr ⟨k, new.known k mem, rfl, rfl⟩))) _ _
  have outside {p : Site} (notMemory : ¬ InMemory p) :
      w.blocks p = (World.ofListing G.listing).blocks p :=
    blocks_runAll_of_not_inMemory new.initializes _ _ notMemory
  have tags : w.entities.map Being.tag = G.tags := by
    rw [after, new.tags]
    exact tags_boot new.fits _ rfl
  have axes : ∀ a ∈ fixedAxes, (a.1.name, a.2) ∈ machineScores := by decide +kernel
  have flags : ∀ flag ∈ flagVariables, (flag.name, (0 : Int32)) ∈ machineScores := by decide +kernel
  constructor
  · refine ⟨⟨⟨?_, fun a => ?_⟩, fun _ _ => rfl⟩, fun _ => numbered, fun a mem => started (axes a mem), tags,
      fun p notMemory _ => outside notMemory, fun p inBuffer counts => ?_⟩
    · rw [World.isSome_locate_iff, tags]
      exact G.helpers G.head (by simp [Computer.helpers, head])
    · rw [after]
      exact cells_boot new.fits _ _ a
    · rw [outside (not_inMemory_of_mem_buffer inBuffer)]
      exact World.not_barrel_ofListing _ p counts
  · exact ⟨started (by decide +kernel), ⟨0, by decide, started (by decide +kernel)⟩,
      .inl fun flag mem => started (flags flag mem)⟩

theorem exists_worldAfter : ∃ s, s.cells = programImage program ∧ s.IsSteady ∧
    ∀ limit > G.listing.length, ∀ n, ∃ w, worldAfter limit G.listing n = some w ∧
      G.Shows w ((State.next chosen)^[n] s) := by
  obtain ⟨shows, steady⟩ := new.shows_start
  refine ⟨_, rfl, steady, fun limit enough n => ?_⟩
  have room := new.length_le
  induction n with
  | zero => exact ⟨_, runs_init new.initializes blocks_init (by omega), shows⟩
  | succ n ih =>
    obtain ⟨w, reached, shows⟩ := ih
    have primary : G.parts.primary.length < limit := by omega
    obtain ⟨w', ran, shows'⟩ := runs_cycle new.cards (fun v mem => new.displays v (new.inside mem)) shows
      primary
    refine ⟨w', ?_, ?_⟩
    · rw [worldAfter, reached, Option.bind_some, ran]
    · rwa [Function.iterate_succ_apply']

end IsNew

theorem Shows.units_eq {w : World} {s : State} (h : G.Shows w s) :
    ∀ u ∈ G.listing, w.blocks u.position.site = some (.unit u.kind u.command) := by
  intro u mem
  have entry : u.entry ∈ G.listing.map PlacedUnit.entry := List.mem_map_of_mem mem
  rw [Listing.ofGroups_entries G.laidOut.placed] at entry
  obtain ⟨chain, p, i, ⟨g, inGroups, r, here, rfl⟩, block, site⟩ := mem_entries_iff.1 entry
  have heights : ∀ y ∈ G.parts.groups.map fun g => g.1.site.y, 0 ≤ y ∧ y < 128 := by
    change ∀ y ∈ [Layout.mainGroup.site.y, Layout.arithmeticGroup.site.y, Layout.jumpGroup.site.y,
      Layout.constantGroup.site.y, Layout.cardGroup.site.y, Layout.registerBank.site.y], 0 ≤ y ∧ y < 128
    decide
  have low : 0 ≤ ((g.1.site.south r).shift i).y ∧ ((g.1.site.south r).shift i).y < 128 :=
    heights _ (List.mem_map_of_mem inGroups)
  rw [site, h.blocks_of_low low, World.blocks_ofListing
    G.laidOut.placed G.parts.atDifferentHeights_groups ⟨g, inGroups, r, here, rfl⟩, block]

theorem Shows.isSound {w : World} {s : State} (h : G.Shows w s) (steady : s.IsSteady)
    (tags : G.tags = (startedComputer 0).helpers.map Entity.tag) :
    IsSound w G.listing G.constants := by
  have apart : ∀ v ∈ flagVariables, v ∉ Memory.scratch := by decide
  have flags : ∀ v ∈ flagVariables, w.score v = s.scores v := fun v mem => h.scores v (apart v mem)
  refine ⟨?_, ?_, fun p inside => ?_, ?_, ?_, ?_, h.knows, h.units_eq⟩
  · rw [h.scores _ (by decide), steady.unmarked]
  · obtain ⟨n, small, opcode⟩ := steady.opcode
    rw [h.scores _ (by decide), opcode, Int32.toInt_ofNat_of_lt (by omega)]
    omega
  · obtain ⟨a, rfl⟩ := Word.exists_site_eq inside
    exact ⟨_, h.cells a, Word.isCount_counts _⟩
  · refine steady.flags.imp (fun zero v mem => (flags v mem).trans (zero v mem)) ?_
    rintro ⟨a, b, compares⟩
    refine ⟨⟨a, b, .of_compares compares flags⟩, ?_⟩
    simp only [flagVariables, List.forall_mem_cons] at flags
    obtain ⟨lf, le, eq, ne, ge, gt, -⟩ := flags
    rw [lf, le, eq, ne, ge, gt]
    exact compares.consistent
  · rw [h.tags, tags]
    decide
  · rw [← List.length_map, h.tags, tags, List.length_map]

end Ground

/-- With at most sixteen print cards and any program that fits into the memory, the initialization of the
machine runs to its end, so does the primary chain however often it is run, and what is between two runs
is sound. -/
theorem runs_stay_sound (m : Nat) :
    ∃ made s, perform (newPrintCards m) {} = (.ok made, s) ∧ made.length = m ∧
      ∀ cards ⊆ made, m < 2 ^ 30 → cards.length ≤ cardSlots →
        ∀ program : List UInt16, program.length ≤ Layout.memoryWords →
          ∃ listing s', perform (build cards program) s = (.ok listing, s') ∧
            ∀ limit > listing.length, ∀ cycles, ∃ w, worldAfter limit listing cycles = some w ∧
              IsSound w listing s'.constants := by
  obtain ⟨values, length, displays, -, made⟩ := perform_newPrintCards m {}
  refine ⟨_, _, made, by rw [List.length_map, length], fun cards subset room few program fits => ?_⟩
  obtain ⟨chosen, rfl, inside⟩ := exists_chosen subset
  obtain ⟨G, s', new, constants, built⟩ := Ground.exists_isNew displays inside (length ▸ room)
    (by simpa using few) fits
  obtain ⟨start, -, steady, reaches⟩ := new.exists_worldAfter
  refine ⟨G.listing, s', built, fun limit enough cycles => ?_⟩
  obtain ⟨w, reached, shows⟩ := reaches limit enough cycles
  have sound := steady.iterate (fun v mem => displays v (inside mem)) cycles
  exact ⟨w, reached, constants ▸ shows.isSound sound new.tags⟩

theorem runs_stay_sound_twice :
    ∃ made s, perform (newPrintCards 1) {} = (.ok made, s) ∧
      ∃ listing s' w, perform (build made [68, 16]) s = (.ok listing, s') ∧
        worldAfter (listing.length + 1) listing 2 = some w ∧ IsSound w listing s'.constants := by
  obtain ⟨made, s, created, length, all⟩ := runs_stay_sound 1
  obtain ⟨listing, s', built, reaches⟩ := all made (List.Subset.refl _) (by decide)
    (by rw [length]; decide) [68, 16] (by decide)
  obtain ⟨w, reached, sound⟩ := reaches (listing.length + 1) (Nat.lt_succ_self _) 2
  exact ⟨made, s, created, listing, s', w, built, reached, sound⟩

end BlockComputer.Machine
