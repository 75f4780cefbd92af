import BlockComputer.Proofs.Machine.Agreement
import BlockComputer.Proofs.Memory.Array
import BlockComputer.Proofs.Relocation.Transparency

/-!
The machine in the world.

A ground is a machine that has been laid out, with what its initialization leaves for good: the units of
the listing, the constants, the fixed coordinates and the helper entities. A world shows a state of the
machine if it stands on the ground, has the state's scores and holds the state's words. The three things
that units do (setting a score, accessing the memory, moving entities) keep the ground.
-/

namespace BlockComputer

theorem World.not_barrel_ofListing (listing : Listing) (p : Site) (counts : Machine.Counts) :
    (ofListing listing).blocks p ≠ some (.barrel counts) := by
  intro found
  rcases foldl_place_eq_some listing found with absent | mem
  · cases absent
  · obtain ⟨u, -, same⟩ := List.mem_map.1 mem
    cases same

namespace Machine

/-- The primary chain, all rows of all groups, and the buffer. -/
def territory : Territory where
  chain := { p | p.y = 0 ∧ p.z = 1 }
  rows := { p | 1 ≤ p.y ∧ p.y ≤ 6 }
  buffer := { p | p.y = -32 }
  chain_rows p inChain inRows := by
    have height : p.y = 0 := inChain.1
    have low : 1 ≤ p.y := inRows.1
    omega
  chain_buffer p inChain inBuffer := by
    have height : p.y = 0 := inChain.1
    have depth : p.y = -32 := inBuffer
    omega
  rows_buffer p inRows inBuffer := by
    have low : 1 ≤ p.y := inRows.1
    have depth : p.y = -32 := inBuffer
    omega

theorem not_inMemory_of_mem_buffer {p : Site} (inBuffer : p ∈ territory.buffer) : ¬ InMemory p := by
  have depth : p.y = -32 := inBuffer
  exact not_inMemory_of_low (by omega)

def machineConstants : List Int32 :=
  decodeConstants ++ [512, 4096, -1]

def Computer.helpers (c : Computer) : List Entity :=
  [c.memory.head, c.splicer.cloner, c.bank.fetcher]

def Variable.IsLoose (v : Variable) : Prop :=
  v.isWord ∧ v ∉ fixedAxes.map Prod.fst

instance (v : Variable) : Decidable (Variable.IsLoose v) :=
  inferInstanceAs (Decidable (_ ∧ _))

theorem Variable.IsLoose.foreign {v : Variable} (loose : IsLoose v) : v.IsForeign :=
  v.isForeign_of_isWord loose.1

/-- A machine that has been laid out, the numbers whose constants are set, and the tags of the entities
that exist. -/
structure Ground where
  cards : List (Card Id)
  program : List UInt16
  parts : Parts
  listing : Listing
  laidOut : parts.LaidOut cards program listing
  constants : List Int32
  vital : machineConstants ⊆ constants
  tags : List String
  helpers : ∀ e ∈ parts.computer.helpers, e.tag ∈ tags

namespace Ground

variable (G : Ground)

def head : Entity := G.parts.computer.memory.head

def cloner : Entity := G.parts.computer.splicer.cloner

def fetcher : Entity := G.parts.computer.bank.fetcher

theorem standard : G.parts.IsStandard G.cards G.head G.cloner G.fetcher := by
  obtain ⟨s, s', made⟩ := G.laidOut.made
  obtain ⟨head, cloner, fetcher, standard⟩ := Parts.ensures_make G.cards G.program s G.parts s' made
  have parts := standard.computer
  rw [show G.head = head by rw [Ground.head, parts]; rfl,
    show G.cloner = cloner by rw [Ground.cloner, parts]; rfl,
    show G.fetcher = fetcher by rw [Ground.fetcher, parts]; rfl]
  exact standard

theorem computer_eq : G.parts.computer = .standard G.head G.cloner G.fetcher :=
  G.standard.computer

/-- The world shows a state of the machine. -/
structure Shows (w : World) (s : State) : Prop extends Memory.Depicts G.head w s where
  knows : w.Knows G.constants
  axes : ∀ a ∈ fixedAxes, w.score a.1 = a.2
  tags : w.entities.map Being.tag = G.tags
  units : ∀ p, ¬ InMemory p → p ∉ territory.buffer →
    w.blocks p = (World.ofListing G.listing).blocks p
  buffer : w.HasNoBarrel territory.buffer

variable {G} {w w' : World} {s : State}

namespace Shows

theorem knows_machine (h : G.Shows w s) : w.Knows machineConstants :=
  h.knows.mono G.vital

theorem isSome_locate (h : G.Shows w s) {e : Entity} (helper : e ∈ G.parts.computer.helpers) :
    (w.locate e).isSome := by
  rw [World.isSome_locate_iff, h.tags]
  exact G.helpers e helper

/-- What an access to the memory works in is no part of the state. -/
theorem of_sameBut (h : G.Shows w s) (same : w.SameBut Memory.scratch w') : G.Shows w' s where
  toDepicts := h.toDepicts.of_sameBut same
  knows := Memory.knows_of_sameBut h.knows same
  axes a mem := by
    have outside : a.1 ∉ Memory.scratch := by
      revert a
      decide
    rw [same.score _ outside, h.axes a mem]
  tags := same.tags.trans h.tags
  units := same.blocks ▸ h.units
  buffer p inside counts := by
    rw [same.blocks]
    exact h.buffer p inside counts

theorem setScore (h : G.Shows w s) {v : Variable} (loose : Variable.IsLoose v) (n : Int32) :
    G.Shows (w.setScore v n) (s.setScore v n) where
  toDepicts := h.toDepicts.setScore v n
  knows := h.knows.setForeign loose.foreign n
  axes a mem := by
    have other : a.1 ≠ v := fun same => loose.2 (same ▸ List.mem_map_of_mem mem)
    rw [World.score_setScore_of_ne _ other, h.axes a mem]
  tags := h.tags
  units := h.units
  buffer := h.buffer

theorem of_leaves (h : G.Shows w s) {a : Memory.Access} (loose : ∀ v ∈ a.writes, Variable.IsLoose v)
    (leaves : a.Leaves G.head G.constants w s w') : G.Shows w' (a.effect s) where
  toDepicts := leaves.depicts
  knows := leaves.knows
  axes b mem := by
    have outside : b.1 ∉ Memory.scratch := by
      revert b
      decide
    have other : b.1 ∉ a.writes := fun written => (loose _ written).2 (List.mem_map_of_mem mem)
    rw [leaves.depicts.scores _ outside, a.scores_effect other, ← h.scores _ outside, h.axes b mem]
  tags := leaves.tags.trans h.tags
  units p outside notBuffer := (leaves.outside p outside).trans (h.units p outside notBuffer)
  buffer p inside counts := by
    rw [leaves.outside p (not_inMemory_of_mem_buffer inside)]
    exact h.buffer p inside counts

theorem of_runAll (h : G.Shows w s) {cs : List Command} (stays : cs.all (Command.staysIn []))
    (p : Site) : G.Shows (w.runAll p cs) s :=
  h.of_sameBut ((World.sameBut_of_staysIn stays p w).mono (List.nil_subset _))

theorem blocks_of_low (h : G.Shows w s) {p : Site} (low : 0 ≤ p.y ∧ p.y < 128) :
    w.blocks p = (World.ofListing G.listing).blocks p := by
  refine h.units p (not_inMemory_of_low low.2) fun inBuffer => ?_
  have depth : p.y = -32 := inBuffer
  omega

theorem bare (h : G.Shows w s) : w.HasNoBarrel territory.all := by
  rintro p ((inChain | inBuffer) | inRows) counts
  · have height : p.y = 0 := inChain.1
    rw [h.blocks_of_low (by omega)]
    exact World.not_barrel_ofListing _ p counts
  · exact h.buffer p inBuffer counts
  · have low : 1 ≤ p.y ∧ p.y ≤ 6 := inRows
    rw [h.blocks_of_low (by omega)]
    exact World.not_barrel_ofListing _ p counts

theorem holdsRow (h : G.Shows w s) {q : Site} {cs : List Command} {n : Nat}
    (row : (World.ofListing G.listing).HoldsRow q cs n) (height : 1 ≤ q.y ∧ q.y ≤ 6) :
    w.HoldsRow q cs n := by
  refine ⟨row.1, fun i less => ?_⟩
  have low : 0 ≤ (q.shift i).y ∧ (q.shift i).y < 128 := by
    simp only [Site.shift]
    omega
  rw [h.blocks_of_low low, row.2 i less]

end Shows

def picture (G : Ground) (s : State) : World where
  blocks p :=
    if InMemory p then some (.barrel (Word.counts (s.cells (Word.ofSite p))))
    else (World.ofListing G.listing).blocks p
  scores v := some (s.scores v)
  entities := G.tags.map fun tag => ⟨tag, ⟨0, 0, 0⟩⟩

theorem shows_picture (knows : ∀ k ∈ G.constants, s.scores (constantNamed k) = k)
    (axes : ∀ a ∈ fixedAxes, s.scores a.1 = a.2) : G.Shows (G.picture s) s where
  head := by
    have mem : G.head.tag ∈ G.tags := G.helpers G.head (by simp [Computer.helpers, head])
    rw [World.isSome_locate_iff]
    simpa [picture, Function.comp_def] using mem
  cells a := by
    have barrel : (G.picture s).blocks (Word.site a) =
        some (.barrel (Word.counts (s.cells (Word.ofSite (Word.site a))))) :=
      if_pos (Word.inMemory_site a)
    rw [barrel, Word.ofSite_site]
  scores _ _ := rfl
  knows := knows
  axes := axes
  tags := by simp [picture, Function.comp_def]
  units p notMemory _ := if_neg notMemory
  buffer p inside counts := by
    have listed : (G.picture s).blocks p = (World.ofListing G.listing).blocks p :=
      if_neg (not_inMemory_of_mem_buffer inside)
    rw [listed]
    exact World.not_barrel_ofListing _ p counts

/-- The state with these scores, everything that the ground fixes, and zeros otherwise. -/
def stateOf (scores : List (Variable × Int32)) : State where
  scores v := ((scores ++ fixedAxes ++ machineConstants.map fun k => (constantNamed k, k)).lookup v).getD 0
  cells _ := Word.ofScore 0

theorem scores_stateOf_constantNamed {scores : List (Variable × Int32)}
    (words : ∀ score ∈ scores, score.1.isWord) {k : Int32} (mem : k ∈ machineConstants) :
    (stateOf scores).scores (constantNamed k) = k := by
  have known : (machineConstants.all fun k => (stateOf []).scores (constantNamed k) == k) = true := by
    decide
  have absent : scores.lookup (constantNamed k) = none := by
    rw [List.lookup_eq_none_iff]
    intro score inside
    rw [bne_iff_ne]
    exact (Variable.ne_constantNamed (words score inside) k).symm
  have least := beq_iff_eq.1 (List.all_eq_true.1 known k mem)
  have lookup : (stateOf scores).scores (constantNamed k) =
      ((scores ++ (fixedAxes ++ machineConstants.map fun k => (constantNamed k, k))).lookup
        (constantNamed k)).getD 0 := by
    rw [← List.append_assoc]
    rfl
  rw [lookup, List.lookup_append, absent]
  exact least

theorem shows_stateOf {G : Ground} (constants : G.constants = machineConstants)
    {scores : List (Variable × Int32)} (words : ∀ score ∈ scores, score.1.isWord)
    (axes : ∀ a ∈ fixedAxes, (stateOf scores).scores a.1 = a.2) {s : State}
    (same : s.scores = (stateOf scores).scores) : G.Shows (G.picture s) s := by
  refine G.shows_picture (fun k mem => ?_) fun a mem => same ▸ axes a mem
  rw [same]
  exact scores_stateOf_constantNamed words (constants ▸ mem)

/-- The machine of a listing that was built, with the constants that its chains read. -/
theorem exists_of_build {cards : List (Card Id)} {program : List UInt16} {t t' : Session}
    {listing : Listing} (built : perform (build cards program) t = (.ok listing, t')) :
    ∃ G : Ground, G.cards = cards ∧ G.listing = listing ∧ G.constants = machineConstants := by
  obtain ⟨parts, laidOut⟩ := Parts.exists_laidOut built
  exact ⟨⟨cards, program, parts, listing, laidOut, machineConstants, List.Subset.refl _,
    parts.computer.helpers.map Entity.tag, fun e mem => List.mem_map_of_mem mem⟩, rfl, rfl, rfl⟩

theorem exists_bare : ∃ G : Ground, G.cards = [] ∧ G.constants = machineConstants := by
  have succeeds : (perform (build [] []) {}).1.toBool = true := by decide +kernel
  cases built : perform (build [] []) {} with
  | mk outcome after =>
    rw [built] at succeeds
    cases outcome with
    | error e => cases succeeds
    | ok listing =>
      obtain ⟨G, cards, -, constants⟩ := exists_of_build built
      exact ⟨G, cards, constants⟩

end Ground

end Machine

end BlockComputer
