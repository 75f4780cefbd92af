import BlockComputer.Proofs.Machine.Resetting
import BlockComputer.Proofs.World.Texts

/-!
A machine is known by its texts.

All names that a machine gives are plain words, and so are those of its print cards. So each of its units says
in its text what it does, and a machine that is run by the texts in its units goes through the same worlds.
-/

namespace BlockComputer.Machine

theorem areNamed_machineVariables : AreNamed machineVariables := by
  decide +kernel

section init

variable {values chosen : List Variable} {program : List UInt16}

theorem isName_of_setScore_mem (named : AreNamed values) {v : Variable} {n : Int32}
    (set : .setScore v n ∈ initOf (withDisplays {} values) chosen program) : Text.isName v.name := by
  rcases setScore_mem_initOf_iff.1 set with ⟨display, -⟩ | listed | ⟨k, -, rfl, -⟩
  · exact named v display
  · have known : v.name ∈ machineNames := names_machineScores ▸ List.mem_map_of_mem (f := Prod.fst) listed
    exact areNamed_machineVariables v (List.mem_append_left _ (List.mem_map.2 ⟨v.name, known, rfl⟩))
  · exact Text.isName_int k.toInt

theorem mem_helpers_of_summonOnce_mem {e : Entity}
    (mem : summonOnce e ∈ initOf (withDisplays {} values) chosen program) : e ∈ (startedComputer 0).helpers := by
  have other {c : Command} (sets : SetsScores c) : c ≠ summonOnce e := by
    rintro rfl
    cases sets
  rw [initOf_eq] at mem
  rcases List.mem_append.1 mem with start | mem
  · exact (other (setsScores_start values _ start) rfl).elim
  rcases List.mem_cons.1 mem with clear | mem
  · cases clear
  rcases List.mem_append.1 mem with summon | mem
  · obtain ⟨e', helper, same⟩ := List.mem_map.1 summon
    cases same
    exact helper
  rcases List.mem_append.1 mem with register | mem
  · exact (other (setsScores_map_setNamed _ _ register) rfl).elim
  rcases List.mem_append.1 mem with preload | after
  · obtain ⟨_, _, same⟩ := exists_of_mem_preload preload
    cases same
  · exact (other (setsScores_initAfter _ _ _ after) rfl).elim

theorem inWords_initOf (fits : program.length ≤ 4096) (named : AreNamed values) :
    ∀ c ∈ initOf (withDisplays {} values) chosen program, c.inWords := by
  intro c mem
  cases initializes_initOf fits c mem with
  | objective | clear | count => rfl
  | score => exact isName_of_setScore_mem named mem
  | summon e =>
    have helpers : ∀ e ∈ (startedComputer 0).helpers, (summonOnce e).inWords := by decide
    exact helpers e (mem_helpers_of_summonOnce_mem mem)

end init

namespace Ground.IsNew

variable {G : Ground} {values chosen : List Variable} {program : List UInt16}
  (new : G.IsNew values chosen program)

include new

theorem inWords (named : AreNamed values) : ∀ u ∈ G.listing, u.command.inWords := by
  intro u mem
  rcases new.mem_init_or_readsIn u mem with first | reads
  · exact inWords_initOf new.fits named _ (new.init ▸ first)
  · refine reads.inWords (List.forall_mem_append.2 ⟨fun v display => ?_, areNamed_machineVariables⟩)
    exact named v (new.inside display)

end Ground.IsNew

theorem isInWords_ofListing {listing : Listing} (words : ∀ u ∈ listing, u.command.inWords) :
    (World.ofListing listing).IsInWords := by
  rintro c ⟨p, kind, here⟩
  rcases World.foldl_place_eq_some listing here with absent | mem
  · cases absent
  · obtain ⟨u, inside, same⟩ := List.mem_map.1 mem
    cases same
    exact words u inside

/-- The world of a machine that is run by the texts in its units. -/
def worldOfTexts (limit : Nat) (listing : Listing) : (cycles : Nat) → Option World
  | 0 => World.runTexts limit ⟨0, 0, 0⟩ (World.ofListing listing)
  | cycles + 1 => (worldOfTexts limit listing cycles).bind (World.runTexts limit ⟨0, 0, 1⟩)

theorem isInWords_worldAfter {limit : Nat} {listing : Listing} (plain : (World.ofListing listing).IsInWords)
    {cycles : Nat} {w : World} (reached : worldAfter limit listing cycles = some w) : w.IsInWords := by
  induction cycles generalizing w with
  | zero => exact plain.of_runFrom reached
  | succ cycles ih =>
    obtain ⟨u, before, ran⟩ := Option.bind_eq_some_iff.1 reached
    exact (ih before).of_runFrom ran

theorem worldOfTexts_eq {limit : Nat} {listing : Listing} (plain : (World.ofListing listing).IsInWords)
    (cycles : Nat) : worldOfTexts limit listing cycles = worldAfter limit listing cycles := by
  induction cycles with
  | zero => exact plain.runTexts_eq limit _
  | succ cycles ih =>
    rw [worldOfTexts, ih, worldAfter]
    refine Option.bind_congr fun w reached => ?_
    exact (isInWords_worldAfter plain reached).runTexts_eq limit _

/-- With at most sixteen print cards and any program that fits into the memory, the machine that is run by the
texts of its commands is in the same world after any number of cycles. -/
theorem texts_tell_machine (m : Nat) :
    ∃ made s, perform (newPrintCards m) {} = (.ok made, s) ∧ made.length = m ∧
      ∀ cards ⊆ made, m < 2 ^ 30 → cards.length ≤ cardSlots →
        ∀ program : List UInt16, program.length ≤ Layout.memoryWords →
          ∃ listing s', perform (build cards program) s = (.ok listing, s') ∧
            (∀ u ∈ listing, ∀ (origin : Point) (w : World),
              w.runText origin u.command.render = some (u.command.run origin w)) ∧
            ∀ limit cycles, worldOfTexts limit listing cycles = worldAfter limit listing cycles := by
  obtain ⟨values, length, displays, named, made⟩ := perform_newPrintCards m {}
  refine ⟨_, _, made, by rw [List.length_map, length], fun cards subset room few program fits => ?_⟩
  obtain ⟨chosen, rfl, inside⟩ := exists_chosen subset
  obtain ⟨G, s', new, -, built⟩ := Ground.exists_isNew displays inside (length ▸ room)
    (by simpa using few) fits
  have words := new.inWords named
  exact ⟨G.listing, s', built, fun u mem origin w => w.runText_render (words u mem) origin,
    fun limit cycles => worldOfTexts_eq (isInWords_ofListing words) cycles⟩

end BlockComputer.Machine
