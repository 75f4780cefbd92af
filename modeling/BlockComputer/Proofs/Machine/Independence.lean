import BlockComputer.Proofs.Listing.Range
import BlockComputer.Proofs.Machine.Making
import BlockComputer.Proofs.Machine.Starting

/-!
The hardware does not depend on the software.

A machine with print cards is always built. Two programs differ in the preloading commands in the middle
of the initialization and nowhere else, and a program or a list of cards that is too long is refused.
-/

namespace BlockComputer.Machine

def machineNames : List String :=
  startNames ++ declaredNames (hardwareAdditions [])

theorem declaredNames_hardwareAdditions (values : List Variable) :
    declaredNames (hardwareAdditions values) = declaredNames (hardwareAdditions []) := by
  simp only [hardwareAdditions, declaredNames_append, cardAdditions, declaredNames_groupAdditions]

theorem nodup_machineNames : machineNames.Nodup := by
  decide +kernel

theorem free_machineNames {values : List Variable} (displays : ∀ v ∈ values, Variable.IsDisplay v) :
    (withDisplays {} values).Free machineNames := by
  have others : ∀ name ∈ machineNames, ¬ "card_print".toList <+: name.toList := by decide +kernel
  refine ⟨nodup_machineNames, fun name mem used => ?_⟩
  have display : name ∈ values.map Variable.name := by
    simpa [withDisplays, Session.declare, Session.register, Session.extendInit] using used
  obtain ⟨v, inside, rfl⟩ := List.mem_map.1 display
  exact others _ mem (displays v inside)

def hardwareNumbers (values : List Variable) : List Int32 :=
  (hardwareAdditions values).flatMap Addition.numbers

def initBefore (s : Session) : List Command :=
  s.init ++ startCommands (markerNumbered s.nextTag) (markerNumbered (s.nextTag + 1))
    (markerNumbered (s.nextTag + 2))

def initAfter (s : Session) (values : List Variable) : List Command :=
  (startedSession s).added (hardwareAdditions values)

def initOf (s : Session) (values : List Variable) (program : List UInt16) : List Command :=
  initBefore s ++ Memory.preloadCommands program ++ initAfter s values

theorem clearMemory_mem_initBefore (s : Session) : clearMemory ∈ initBefore s := by
  simp [initBefore, startCommands]

theorem sum_size_hardwareAdditions_le (values : List Variable) :
    ((hardwareAdditions values).map Addition.size).sum ≤ 1000 := by
  have noNumbers : ∀ entry ∈ printRows values, entry.2.flatMap Stage.constants = [] := by
    intro entry mem
    obtain ⟨value, -, rfl⟩ := List.mem_map.1 mem
    rfl
  have rows : (printRows values).map (fun entry =>
      (Addition.ofNumbers (entry.2.flatMap Stage.constants)).size) =
        List.replicate (printRows values).length 0 := by
    refine List.eq_replicate_iff.2 ⟨List.length_map _, List.forall_mem_map.2 fun entry mem => ?_⟩
    rw [noNumbers entry mem]
    rfl
  have cards : ((cardAdditions values).map Addition.size).sum ≤ 6 := by
    simp only [cardAdditions, groupAdditions, List.map_append, List.map_cons, List.map_map,
      Function.comp_def, rows, List.cons_append, List.sum_cons, List.sum_append, List.sum_replicate_nat,
      Nat.mul_zero]
    split <;> decide
  have others : ((arithmeticAdditions ++ jumpAdditions ++ constantAdditions ++ bankAdditions
      ++ primaryAdditions).map Addition.size).sum ≤ 994 := by decide +kernel
  simp only [hardwareAdditions, List.map_append, List.sum_append] at others ⊢
  omega

theorem length_initOf_le (s : Session) (values : List Variable) (program : List UInt16) :
    (initOf s values program).length ≤ s.init.length + 2 * program.length + 2000 := by
  have later := ({ startedSession s with init := [] } : Session).length_init_grow_le
    (hardwareAdditions values)
  have size := sum_size_hardwareAdditions_le values
  have start (head cloner fetcher : Entity) : (startCommands head cloner fetcher).length ≤ 1000 :=
    Nat.le_of_ble_eq_true rfl
  have started := start (markerNumbered s.nextTag) (markerNumbered (s.nextTag + 1))
    (markerNumbered (s.nextTag + 2))
  simp only [initOf, initBefore, initAfter, List.length_append, length_preloadCommands]
  rw [Session.added]
  simp only [List.length_nil] at later
  omega

def initChain (cs : List Command) : Chain :=
  { label := "init", commands := cs }

namespace Parts

theorem exists_make_eq {values : List Variable} (few : values.length ≤ cardSlots) {s : Session}
    (free : s.Free machineNames) :
    ∃ p : Parts, p.IsCompact ∧ p.computer = startedComputer s.nextTag ∧
      ∀ program : List UInt16, program.length ≤ Layout.memoryWords → ∃ s',
        perform (make (values.map printCard) program) s =
          (.ok { p with init := initOf s values program }, s') ∧
        ∀ k, k ∈ s'.constants ↔ k ∈ s.constants ∨ k ∈ hardwareNumbers values := by
  obtain ⟨p, builds, computer, compact⟩ := exists_builds_hardware (markerNumbered s.nextTag)
    (markerNumbered (s.nextTag + 1)) (markerNumbered (s.nextTag + 2)) few
  refine ⟨p, compact, computer, fun program fits => ?_⟩
  let started := (startedSession s).extendInit (Memory.preloadCommands program)
  have later : started.Free (declaredNames (hardwareAdditions values)) := by
    rw [declaredNames_hardwareAdditions]
    exact free.right
  have grown : (started.grow (hardwareAdditions values)).init = initOf s values program := by
    rw [Session.init_grow]
    rfl
  refine ⟨started.grow (hardwareAdditions values), ?_, fun k => Session.mem_constants_grow _ _⟩
  rw [make_eq, perform_bind, perform_create free.left]
  simp only
  rw [perform_bind, perform_preload fits]
  simp only
  rw [perform_bind, show startedComputer s.nextTag = .standard _ _ _ from rfl, builds started later]
  simp only [perform_bind, perform_get, perform_pure, grown]

def hardwareUnits (p : Parts) : Listing :=
  p.primary.placed 0 1 ++ (Listing.placedChains 1 0 p.arithmetic.chains ++
    (Listing.placedChains 2 0 p.jump.chains ++ (Listing.placedChains 3 0 p.constant.chains ++
      (Listing.placedChains 4 0 p.card.chains ++ Listing.placedChains 6 0 p.bank.chains))))

variable {p : Parts}

theorem IsCompact.ofGroups_eq (h : p.IsCompact) (starts : p.init ≠ []) (short : p.init.length < 2 ^ 31) :
    Listing.ofGroups p.groups = .ok ((initChain p.init).placed 0 0 ++ p.hardwareUnits) := by
  obtain ⟨compact, onlyChain, busy, bound⟩ := h
  have place {y : Int32} {g : ChainGroup} (compact : Compact g) :
      Listing.PlaceableGroup (.absolute 0 y 0, g) := by
    refine ⟨⟨y, rfl⟩, fun chain mem => ?_, Nat.lt_of_le_of_lt compact.few (by decide)⟩
    obtain ⟨only, length⟩ := compact.chains chain mem
    exact ⟨by omega, fun _ => only⟩
  have main : Listing.PlaceableGroup (.absolute 0 0 0, p.main) := by
    refine ⟨⟨0, rfl⟩, List.forall_mem_cons.2 ⟨⟨short, fun empty => absurd empty starts⟩, ?_⟩,
      Nat.lt_of_le_of_lt (Nat.le_refl 2) (by decide)⟩
    exact List.forall_mem_singleton.2 ⟨by omega, fun empty => absurd empty busy⟩
  simp only [List.forall_mem_cons] at compact
  obtain ⟨arithmetic, jump, constant, card, bank, -⟩ := compact
  rw [Listing.ofGroups_eq_ok]
  · simp [Parts.groups, hardwareUnits, Parts.main, initChain, Listing.placedChains, Layout.mainGroup,
      Layout.arithmeticGroup, Layout.jumpGroup, Layout.constantGroup, Layout.cardGroup,
      Layout.registerBank, Position.absolute]
  · simp only [Parts.groups, List.forall_mem_cons]
    exact ⟨main, place arithmetic, place jump, place constant, place card, place bank,
      List.forall_mem_nil _⟩

theorem site_of_mem_hardwareUnits {u : PlacedUnit} (mem : u ∈ p.hardwareUnits) :
    ¬ (u.position.site.y = 0 ∧ u.position.site.z = 0) := by
  have height {chain : Chain} {y z : Int32} (mem : u ∈ chain.placed y z) :
      u.position.site.y = y.toInt ∧ u.position.site.z = z.toInt := by
    obtain ⟨i, less, rfl⟩ := List.mem_mapIdx.1 mem
    exact ⟨rfl, rfl⟩
  have floor {y : Int32} {chains : List Chain} (mem : u ∈ Listing.placedChains y 0 chains) :
      u.position.site.y = y.toInt := by
    obtain ⟨units, inRows, mem⟩ := List.mem_flatten.1 mem
    obtain ⟨r, less, rfl⟩ := List.mem_mapIdx.1 inRows
    exact (height mem).1
  simp only [hardwareUnits, List.mem_append] at mem
  rintro ⟨y, z⟩
  rcases mem with primary | mem | mem | mem | mem | mem
  · exact absurd ((height primary).2.symm.trans z) (by decide)
  all_goals exact absurd ((floor mem).symm.trans y) (by decide)

end Parts

/-- The machine is built for every program, and the program shows only in the initialization. -/
theorem exists_build_eq {values : List Variable} (few : values.length ≤ cardSlots) {s : Session}
    (free : s.Free machineNames) (room : s.init.length ≤ 2 ^ 30) :
    ∃ p : Parts, p.computer = startedComputer s.nextTag ∧
      ∀ program : List UInt16, program.length ≤ Layout.memoryWords →
        ∃ listing s', listing = (initChain (initOf s values program)).placed 0 0 ++ p.hardwareUnits ∧
          perform (build (values.map printCard) program) s = (.ok listing, s') ∧
          (∀ k, k ∈ s'.constants ↔ k ∈ s.constants ∨ k ∈ hardwareNumbers values) ∧
          Parts.LaidOut { p with init := initOf s values program } (values.map printCard) program
            listing := by
  obtain ⟨p, compact, computer, made⟩ := Parts.exists_make_eq few free
  refine ⟨p, computer, fun program fits => ?_⟩
  obtain ⟨s', made, constants⟩ := made program fits
  have starts : initOf s values program ≠ [] := by
    simp [initOf, initBefore, startCommands]
  have short : (initOf s values program).length < 2 ^ 31 := by
    have bound := length_initOf_le s values program
    have words : Layout.memoryWords = 4096 := rfl
    omega
  have placed := Parts.IsCompact.ofGroups_eq (p := { p with init := initOf s values program })
    ⟨compact.groups, compact.primary⟩ starts short
  refine ⟨_, s', rfl, ?_, constants, ⟨s, s', made⟩, placed⟩
  rw [Parts.build_eq, perform_bind, made]
  simp only [placed]
  rfl

section refusal

variable {cards : List (Card Id)} {program : List UInt16} {s : Session}

theorem perform_build_of_long (long : Layout.memoryWords < program.length) (free : s.Free startNames) :
    ∃ s', perform (build cards program) s =
      (.error (.error (.programTooLong program.length)), s') := by
  refine ⟨startedSession s, ?_⟩
  rw [Parts.build_eq, Parts.make_eq, perform_bind, perform_bind, perform_create free]
  simp only
  rw [perform_bind, perform_preload_of_long long]

theorem perform_build_of_many (many : cardSlots < cards.length)
    (fits : program.length ≤ Layout.memoryWords) (free : s.Free machineNames) :
    ∃ s', perform (build cards program) s =
      (.error (.error (.tooManyCards cards.length cardSlots)), s') := by
  obtain ⟨arithmetic, arithmeticBuilds, -⟩ := makesGroup_arithmetic (markerNumbered s.nextTag)
    (markerNumbered (s.nextTag + 1)) (markerNumbered (s.nextTag + 2))
  obtain ⟨jump, jumpBuilds, -⟩ := makesGroup_jump (markerNumbered s.nextTag)
    (markerNumbered (s.nextTag + 1)) (markerNumbered (s.nextTag + 2))
  obtain ⟨constant, constantBuilds, -⟩ := makesGroup_constant (markerNumbered s.nextTag)
    (markerNumbered (s.nextTag + 1)) (markerNumbered (s.nextTag + 2))
  have rejected (c : Computer) (t : Session) : perform (c.cardGroup cards) t =
      (.error (.error (.tooManyCards cards.length cardSlots)), t) := by
    unfold Computer.cardGroup
    simp only [many, if_true]
    rfl
  let started := (startedSession s).extendInit (Memory.preloadCommands program)
  have first : started.Free (declaredNames (arithmeticAdditions ++ _)) := free.right
  have second := first.grow
  have third := second.grow
  rw [declaredNames_append] at first second third
  let left := ((started.grow arithmeticAdditions).grow jumpAdditions).grow constantAdditions
  have hardware : perform (Parts.hardware (startedComputer s.nextTag) cards) started =
      (.error (.error (.tooManyCards cards.length cardSlots)), left) := by
    rw [Parts.hardware, startedComputer, perform_bind, arithmeticBuilds started first.left]
    simp only
    rw [perform_bind, jumpBuilds _ second.left]
    simp only
    rw [perform_bind, constantBuilds _ third.left]
    simp only
    rw [perform_bind, rejected]
  refine ⟨left, ?_⟩
  rw [Parts.build_eq, Parts.make_eq, perform_bind, perform_bind, perform_create free.left]
  simp only
  rw [perform_bind, perform_preload fits]
  simp only
  rw [perform_bind, hardware]

end refusal

section printCard

variable {program : List UInt16}

theorem withPrintCard_eq (program : List UInt16) :
    ∃ value, Variable.IsDisplay value ∧
      withPrintCard program = (perform (build [printCard value] program) (withDisplays {} [value])).1 := by
  refine ⟨_, isDisplay_freshName {}, ?_⟩
  change (perform (newPrintCard >>= fun card => build [card] program) {}).1 = _
  rw [perform_bind, perform_newPrintCard]

theorem exists_withPrintCard_eq_ok (fits : program.length ≤ Layout.memoryWords) :
    ∃ listing, withPrintCard program = .ok listing := by
  obtain ⟨value, display, made⟩ := withPrintCard_eq program
  have free := free_machineNames (List.forall_mem_singleton.2 display)
  have few : [value].length ≤ cardSlots := by rw [List.length_singleton]; decide
  have short : (withDisplays {} [value]).init.length ≤ 2 ^ 30 := by
    simp [withDisplays, Session.declare, Session.register, Session.extendInit]
  obtain ⟨p, -, built⟩ := exists_build_eq few free short
  obtain ⟨listing, s', -, built, -⟩ := built program fits
  refine ⟨listing, ?_⟩
  rw [List.map_singleton] at built
  rw [made, built]

theorem withPrintCard_of_long (long : Layout.memoryWords < program.length) :
    withPrintCard program = .error (.error (.programTooLong program.length)) := by
  obtain ⟨value, display, made⟩ := withPrintCard_eq program
  have free := free_machineNames (List.forall_mem_singleton.2 display)
  obtain ⟨s', refused⟩ := @perform_build_of_long [printCard value] _ _ long free.left
  rw [made, refused]

end printCard

theorem exists_chosen {values : List Variable} {cards : List (Card Id)}
    (subset : cards ⊆ values.map printCard) :
    ∃ chosen : List Variable, cards = chosen.map printCard ∧ chosen ⊆ values := by
  induction cards with
  | nil => exact ⟨[], rfl, List.nil_subset _⟩
  | cons card cards ih =>
    obtain ⟨first, others⟩ := List.cons_subset.1 subset
    obtain ⟨value, mem, rfl⟩ := List.mem_map.1 first
    obtain ⟨chosen, rfl, inside⟩ := ih others
    exact ⟨value :: chosen, rfl, List.cons_subset.2 ⟨mem, inside⟩⟩

/-- Print cards are always made. With at most sixteen of them every program that fits into the memory makes
a machine; its hardware is the same for all programs, and its initialization is the same but for two
commands for each word behind the filling of the memory. Longer programs and more cards are refused. -/
theorem hardware_ignores_software (m : Nat) :
    ∃ made s, perform (newPrintCards m) {} = (.ok made, s) ∧ made.length = m ∧
      ∀ cards ⊆ made,
        (m < 2 ^ 30 → cards.length ≤ cardSlots → ∃ before after hardware,
          clearMemory ∈ before ∧
          (∀ u ∈ hardware, ¬ (u.position.site.y = 0 ∧ u.position.site.z = 0)) ∧
          ∀ program : List UInt16, program.length ≤ Layout.memoryWords →
            (Memory.preloadCommands program).length = 2 * program.length ∧
            ∃ s', perform (build cards program) s =
              (.ok ((initChain (before ++ Memory.preloadCommands program ++ after)).placed 0 0
                ++ hardware), s')) ∧
        ∀ program : List UInt16,
          (Layout.memoryWords < program.length → ∃ s', perform (build cards program) s =
            (.error (.error (.programTooLong program.length)), s')) ∧
          (program.length ≤ Layout.memoryWords → cardSlots < cards.length → ∃ s',
            perform (build cards program) s =
              (.error (.error (.tooManyCards cards.length cardSlots)), s')) := by
  obtain ⟨values, length, displays, -, made⟩ := perform_newPrintCards m {}
  have free := free_machineNames displays
  refine ⟨_, _, made, by rw [List.length_map, length], fun cards subset => ⟨fun room few => ?_,
    fun program => ⟨fun long => perform_build_of_long long free.left,
      fun fits many => perform_build_of_many many fits free⟩⟩⟩
  obtain ⟨chosen, rfl, -⟩ := exists_chosen subset
  have short : (withDisplays {} values).init.length ≤ 2 ^ 30 := by
    simp [withDisplays, Session.declare, Session.register, Session.extendInit]
    omega
  obtain ⟨p, -, built⟩ := exists_build_eq (by simpa using few) free short
  refine ⟨initBefore (withDisplays {} values), initAfter (withDisplays {} values) chosen, p.hardwareUnits,
    clearMemory_mem_initBefore _, fun _ => Parts.site_of_mem_hardwareUnits, fun program fits =>
    ⟨length_preloadCommands program, ?_⟩⟩
  obtain ⟨listing, s', rfl, built, -⟩ := built program fits
  exact ⟨s', built⟩

theorem hardware_ignores_software_add :
    ∃ made s, perform (newPrintCards 1) {} = (.ok made, s) ∧ made.length = 1 ∧
      ∃ before after hardware s' t',
        perform (build made [68]) s = (.ok ((initChain (before ++ Memory.preloadCommands [68]
          ++ after)).placed 0 0 ++ hardware), s') ∧
        perform (build made (List.replicate 4097 68)) s =
          (.error (.error (.programTooLong 4097)), t') := by
  obtain ⟨made, s, created, length, all⟩ := hardware_ignores_software 1
  obtain ⟨built, refused⟩ := all made (List.Subset.refl _)
  obtain ⟨before, after, hardware, -, -, uniform⟩ := built (by decide) (by rw [length]; decide)
  obtain ⟨-, s', word⟩ := uniform [68] (by decide)
  obtain ⟨t', long⟩ := (refused (List.replicate 4097 68)).1 (by rw [List.length_replicate]; decide)
  rw [List.length_replicate] at long
  exact ⟨made, s, created, length, before, after, hardware, s', t', word, long⟩

end BlockComputer.Machine
