import BlockComputer.Proofs.Machine.Reading
import BlockComputer.Proofs.Machine.Soundness

/-!
The initialization resets a machine.

Every score that a unit of a machine reads is set in the initialization, which reads no score itself and
leaves helper entities that exist alone. So it can be run again after any number of cycles, and what the
chains read, the memory and the helper entities are then as they were in the beginning.
-/

namespace BlockComputer.Machine

def HoldsInit (listing : Listing) (init : List Command) : Prop :=
  ∀ i : Nat, (World.ofListing listing).blocks ⟨i, 0, 0⟩ = init[i]?.map (Block.unit (kindAt .impulse i))

/-- What an initialization leaves: the scores that it sets, a barrel with its word of the program at each place
of the memory, and the three helper entities, one each. -/
structure IsInitialized (init : List Command) (program : List UInt16) (w : World) : Prop where
  scores : ∀ v n, .setScore v n ∈ init → w.scores v = some n
  memory : ∀ p, InMemory p → w.blocks p = some (.barrel (programImage program (.ofSite p)).counts)
  entities : w.entities.map Being.tag = ["e0", "e1", "e2"]

/-- In both worlds the units of the listing read the same scores, and the memory and the entities are the
same. -/
structure IsReset (listing : Listing) (first again : World) : Prop where
  scores : ∀ u ∈ listing, ∀ v ∈ u.command.reads, again.scores v = first.scores v
  memory : ∀ p, InMemory p → again.blocks p = first.blocks p
  entities : again.entities.map Being.tag = first.entities.map Being.tag

namespace Ground

variable {G : Ground} {values chosen : List Variable} {program : List UInt16}

theorem holdsInit : HoldsInit G.listing G.parts.init := by
  intro i
  rw [← blocks_init, Site.shift, Int.zero_add]

theorem Shows.blocks_init {w : World} {s : State} (h : G.Shows w s) (i : Nat) :
    w.blocks (Site.shift ⟨0, 0, 0⟩ i) = G.parts.init[i]?.map (Block.unit (kindAt .impulse i)) := by
  rw [h.blocks_of_low ⟨Int.le_refl 0, (by decide : (0 : Int) < 128)⟩, Ground.blocks_init]

namespace IsNew

variable (new : G.IsNew values chosen program)

include new

theorem isNamed : (Computer.standard G.head G.cloner G.fetcher).IsNamed := by
  have plain : ∀ tag ∈ (startedComputer 0).helpers.map Entity.tag, Text.isName tag := by decide
  intro e mem
  exact plain _ (new.tags ▸ G.helpers e (G.computer_eq ▸ mem))

theorem mem_init_or_readsIn : ∀ u ∈ G.listing,
    u.command ∈ G.parts.init ∨ u.command.ReadsIn (chosen ++ machineVariables) := by
  intro u mem
  obtain ⟨y, g, floor, k, i, chain, row, block, -⟩ :=
    (G.laidOut.mem_entries _ _).1 (List.mem_map_of_mem (f := PlacedUnit.entry) mem)
  obtain ⟨command, here, same⟩ := Option.map_eq_some_iff.1 block
  obtain rfl : command = u.command := (Block.unit.inj same).2
  have inChain := List.mem_of_getElem? here
  rcases (new.cards ▸ G.standard).readsIn_floors new.isNamed floor chain (List.mem_of_getElem? row) with rfl | reads
  · exact .inl inChain
  · exact .inr (reads _ inChain)

theorem isTold : ∀ u ∈ G.listing, u.command.isTold := by
  intro u mem
  rcases new.mem_init_or_readsIn u mem with first | reads
  · exact (new.initializes _ first).isTold
  · exact reads.told

theorem reads_subset : ∀ u ∈ G.listing, ∀ v ∈ u.command.reads, v ∈ chosen ++ machineVariables := by
  intro u mem v read
  rcases new.mem_init_or_readsIn u mem with first | reads
  · rw [(new.initializes _ first).reads_eq_nil] at read
    cases read
  · exact reads.reads v read

theorem exists_setScore {v : Variable} (mem : v ∈ chosen ++ machineVariables) (inside : chosen ⊆ values) :
    ∃ n, .setScore v n ∈ G.parts.init := by
  rw [new.init]
  simp only [setScore_mem_initOf_iff]
  rcases List.mem_append.1 mem with display | machine
  · exact ⟨0, .inl ⟨inside display, rfl⟩⟩
  · rcases List.mem_append.1 machine with named | number
    · obtain ⟨name, known, rfl⟩ := List.mem_map.1 named
      rw [← names_machineScores] at known
      obtain ⟨⟨_, n⟩, listed, rfl⟩ := List.mem_map.1 known
      exact ⟨n, .inr (.inl listed)⟩
    · obtain ⟨k, known, rfl⟩ := List.mem_map.1 number
      exact ⟨k, .inr (.inr ⟨k, machineConstants_subset chosen known, rfl, rfl⟩)⟩

theorem isInitialized {w : World} (empty : w.entities = []) :
    IsInitialized G.parts.init program (w.runAll ⟨0, 0, 0⟩ G.parts.init) where
  scores v n set := by
    rw [new.init] at set ⊢
    exact scores_boot new.displays new.fits set _ w
  memory p inMemory := by
    obtain ⟨a, rfl⟩ := Word.exists_site_eq inMemory
    rw [new.init, cells_boot new.fits, Word.ofSite_site]
  entities := by
    rw [new.init, tags_boot new.fits _ empty]
    decide

/-- In a world where the helper entities stand the initialization leaves what it leaves in one without any
entity. -/
theorem isReset {w u : World} (tags : w.entities.map Being.tag = G.tags) (empty : u.entities = []) :
    IsReset G.listing (u.runAll ⟨0, 0, 0⟩ G.parts.init) (w.runAll ⟨0, 0, 0⟩ G.parts.init) where
  scores x mem v reads := by
    obtain ⟨n, set⟩ := new.exists_setScore (new.reads_subset x mem v reads) new.inside
    rw [new.init] at set ⊢
    rw [scores_boot new.displays new.fits set, scores_boot new.displays new.fits set]
  memory p inMemory := by
    obtain ⟨a, rfl⟩ := Word.exists_site_eq inMemory
    rw [new.init, cells_boot new.fits, cells_boot new.fits]
  entities := by
    have there : ∀ e ∈ (startedComputer 0).helpers, e.tag ∈ w.entities.map Being.tag := by
      rw [tags, new.tags]
      exact fun e mem => List.mem_map_of_mem mem
    rw [new.init, entities_boot new.fits _ there, tags_boot new.fits _ empty, tags, new.tags]

end IsNew

end Ground

/-- With at most sixteen print cards and any program that fits into the memory: every unit's command is
known by its structure and reads only scores that the initialization sets, the initialization reads no
score, and run again after any number of cycles it leaves what it left at first: the same scores, the program
in all barrels of the memory, and the three helpers. -/
theorem init_resets (m : Nat) :
    ∃ made s, perform (newPrintCards m) {} = (.ok made, s) ∧ made.length = m ∧
      ∀ cards ⊆ made, m < 2 ^ 30 → cards.length ≤ cardSlots →
        ∀ program : List UInt16, program.length ≤ Layout.memoryWords →
          ∃ listing s' init, perform (build cards program) s = (.ok listing, s') ∧
            HoldsInit listing init ∧
            (∀ u ∈ listing, u.command.isTold ∧ ∀ v ∈ u.command.reads, ∃ n, .setScore v n ∈ init) ∧
            (∀ c ∈ init, c.isTold ∧ c.reads = []) ∧
            ∀ limit > listing.length, ∀ cycles, ∃ first w again, worldAfter limit listing 0 = some first ∧
              worldAfter limit listing cycles = some w ∧ World.runChain limit ⟨0, 0, 0⟩ w = some again ∧
              IsInitialized init program first ∧ IsReset listing first again := by
  obtain ⟨values, length, displays, -, made⟩ := perform_newPrintCards m {}
  refine ⟨_, _, made, by rw [List.length_map, length], fun cards subset room few program fits => ?_⟩
  obtain ⟨chosen, rfl, inside⟩ := exists_chosen subset
  obtain ⟨G, s', new, -, built⟩ := Ground.exists_isNew displays inside (length ▸ room)
    (by simpa using few) fits
  obtain ⟨start, -, -, reaches⟩ := new.exists_worldAfter
  refine ⟨G.listing, s', G.parts.init, built, Ground.holdsInit, fun u mem => ⟨new.isTold u mem,
    fun v read => new.exists_setScore (new.reads_subset u mem v read) inside⟩,
    fun c mem => ⟨(new.initializes c mem).isTold, (new.initializes c mem).reads_eq_nil⟩,
    fun limit enough cycles => ?_⟩
  · obtain ⟨w, reached, shows⟩ := reaches limit enough cycles
    have room : G.parts.init.length < limit := by
      have length_le := new.length_le
      omega
    exact ⟨_, w, _, Ground.runs_init new.initializes Ground.blocks_init room, reached,
      Ground.runs_init new.initializes shows.blocks_init room, new.isInitialized rfl,
      new.isReset shows.tags rfl⟩

theorem init_resets_after_two :
    ∃ made s, perform (newPrintCards 1) {} = (.ok made, s) ∧
      ∃ listing s' init, perform (build made [68, 16]) s = (.ok listing, s') ∧ HoldsInit listing init ∧
        ∃ first w again, worldAfter (listing.length + 1) listing 0 = some first ∧
          worldAfter (listing.length + 1) listing 2 = some w ∧
          World.runChain (listing.length + 1) ⟨0, 0, 0⟩ w = some again ∧
          IsInitialized init [68, 16] first ∧ IsReset listing first again := by
  obtain ⟨made, s, created, length, all⟩ := init_resets 1
  obtain ⟨listing, s', init, built, holds, -, -, resets⟩ := all made (List.Subset.refl _) (by decide)
    (by rw [length]; decide) [68, 16] (by decide)
  exact ⟨made, s, created, listing, s', init, built, holds, resets (listing.length + 1) (Nat.lt_succ_self _) 2⟩

end BlockComputer.Machine
