import BlockComputer.Proofs.Machine.Agreement
import BlockComputer.Proofs.Memory.Word

/-!
Where the machine stands.

The groups of a machine lie on floors of their own, and each chain has a row to itself. No unit stands in
the memory or in the row that relocations copy through, whatever the cards emit.
-/

namespace BlockComputer.Machine

def Parts.floors (p : Parts) : List (Int × ChainGroup) :=
  [(0, p.main), (1, p.arithmetic), (2, p.jump), (3, p.constant), (4, p.card), (6, p.bank)]

theorem Parts.standsAt_iff {p : Parts} {chain : Chain} {q : Site} :
    StandsAt p.groups chain q ↔
      ∃ y g, (y, g) ∈ p.floors ∧ ∃ k : Nat, g.chains[k]? = some chain ∧ q = ⟨0, y, k⟩ := by
  have floors : p.floors = p.groups.map fun g => (g.1.site.y, g.2) := rfl
  have origins : ∀ g ∈ p.groups, g.1.site.x = 0 ∧ g.1.site.z = 0 := by
    simp only [groups, List.forall_mem_cons]
    exact ⟨⟨rfl, rfl⟩, ⟨rfl, rfl⟩, ⟨rfl, rfl⟩, ⟨rfl, rfl⟩, ⟨rfl, rfl⟩, ⟨rfl, rfl⟩, List.forall_mem_nil _⟩
  have south {g : Position × ChainGroup} (mem : g ∈ p.groups) (k : Nat) :
      g.1.site.south k = ⟨0, g.1.site.y, k⟩ := by
    obtain ⟨x, z⟩ := origins g mem
    simp [Site.south, x, z]
  constructor
  · rintro ⟨g, mem, k, row, rfl⟩
    refine ⟨g.1.site.y, g.2, floors ▸ List.mem_map_of_mem mem, k, row, south mem k⟩
  · rintro ⟨y, g, mem, k, row, rfl⟩
    rw [floors] at mem
    obtain ⟨g', mem', same⟩ := List.mem_map.1 mem
    cases same
    exact ⟨g', mem', k, row, (south mem' k).symm⟩

/-- How the parts of a machine are laid out. -/
structure Parts.IsLayout (p : Parts) (listing : Listing) : Prop where
  /-- no two units stand at one site -/
  distinct : (listing.map fun u => u.position.site).Nodup
  /-- unit `i` of chain `k` of the group at height `y` stands at `(i, y, k)`, and no other units exist -/
  units : ∀ q b, (q, b) ∈ listing.map PlacedUnit.entry ↔
    ∃ y g, (y, g) ∈ p.floors ∧ ∃ (k i : Nat) (chain : Chain), g.chains[k]? = some chain ∧
      chain.blockAt? i = some b ∧ q = ⟨i, y, k⟩
  /-- a row holds the units of its chain one after the other, and nothing else -/
  rows : ∀ y g, (y, g) ∈ p.floors → ∀ (k : Nat) (chain : Chain), g.chains[k]? = some chain →
    ∀ (x : Int) b, (⟨x, y, k⟩, b) ∈ listing.map PlacedUnit.entry ↔
      ∃ i : Nat, x = i ∧ chain.blockAt? i = some b
  memory : ∀ u ∈ listing, ¬ InMemory u.position.site
  buffer : ∀ u ∈ listing, u.position.site.y ≠ bufferPosition.site.y
  /-- the first units of the initialization and of the primary chain exist, and no other unit starts a
  chain -/
  starts : p.init ≠ [] ∧ p.primary.commands ≠ [] ∧
    ∀ u ∈ listing, u.kind = .impulse ↔
      u.position.site = ⟨0, 0, 0⟩ ∨ u.position.site = ⟨0, 0, 1⟩

theorem onlyChain_of_hasRows {label : String} {rows : List (String × EmitM Unit)} {g : ChainGroup}
    (h : g.HasRows label rows) : ∀ chain ∈ g.chains, chain.onlyChain = true := by
  obtain ⟨-, areRows⟩ := h
  generalize g.chains = chains at areRows ⊢
  induction areRows with
  | nil => exact fun _ mem => nomatch mem
  | cons isRow _ ih => exact List.forall_mem_cons.2 ⟨isRow.onlyChain_eq, ih⟩

namespace Parts

variable {p : Parts} {cards : List (Card Id)} {program : List UInt16} {listing : Listing}

theorem IsStandard.onlyChain {head cloner fetcher : Entity}
    (standard : p.IsStandard cards head cloner fetcher) {y : Int} {g : ChainGroup}
    (mem : (y, g) ∈ p.floors) (behind : y ≠ 0) : ∀ chain ∈ g.chains, chain.onlyChain = true := by
  have dispatches {label : String} {dispatch : Window → EmitM Unit}
      {rows : List (String × EmitM Unit)} {g : ChainGroup} (h : Dispatches label dispatch rows g) :
      ∀ chain ∈ g.chains, chain.onlyChain = true :=
    have ⟨_, areRows, _⟩ := h
    onlyChain_of_hasRows areRows
  simp only [floors, List.mem_cons, Prod.mk.injEq, List.not_mem_nil, or_false] at mem
  rcases mem with ⟨zero, -⟩ | ⟨-, rfl⟩ | ⟨-, rfl⟩ | ⟨-, rfl⟩ | ⟨-, rfl⟩ | ⟨-, rfl⟩
  · exact (behind zero).elim
  · exact dispatches standard.arithmetic
  · exact dispatches standard.jump
  · exact dispatches standard.constant
  · rcases standard.card.2 with covered | ⟨areRows, -⟩
    · exact dispatches covered
    · exact onlyChain_of_hasRows areRows
  · exact onlyChain_of_hasRows standard.bank

theorem LaidOut.mem_entries (h : p.LaidOut cards program listing) (q : Site) (b : Block) :
    (q, b) ∈ listing.map PlacedUnit.entry ↔
      ∃ y g, (y, g) ∈ p.floors ∧ ∃ (k i : Nat) (chain : Chain), g.chains[k]? = some chain ∧
        chain.blockAt? i = some b ∧ q = ⟨i, y, k⟩ := by
  rw [Listing.ofGroups_entries h.placed, mem_entries_iff]
  constructor
  · rintro ⟨chain, start, i, stands, block, rfl⟩
    obtain ⟨y, g, mem, k, row, rfl⟩ := standsAt_iff.1 stands
    exact ⟨y, g, mem, k, i, chain, row, block, by simp [Site.shift]⟩
  · rintro ⟨y, g, mem, k, i, chain, row, block, rfl⟩
    exact ⟨chain, ⟨0, y, k⟩, i, standsAt_iff.2 ⟨y, g, mem, k, row, rfl⟩, block, by simp [Site.shift]⟩

theorem LaidOut.mem_row (h : p.LaidOut cards program listing) {y : Int} {g : ChainGroup}
    (mem : (y, g) ∈ p.floors) {k : Nat} {chain : Chain} (row : g.chains[k]? = some chain) (x : Int)
    (b : Block) :
    (⟨x, y, k⟩, b) ∈ listing.map PlacedUnit.entry ↔ ∃ i : Nat, x = i ∧ chain.blockAt? i = some b := by
  rw [h.mem_entries]
  constructor
  · rintro ⟨y', g', mem', k', i, chain', row', block, same⟩
    have stands := standsAt_iff.2 ⟨y, g, mem, k, row, rfl⟩
    have stands' := standsAt_iff.2 ⟨y', g', mem', k', row', rfl⟩
    obtain ⟨rfl, rfl, north⟩ := Site.mk.inj same
    obtain ⟨rfl, -⟩ := stands.unique p.atDifferentHeights_groups stands'
      (show Site.shift _ 0 = Site.shift _ 0 by rw [north])
    exact ⟨i, rfl, block⟩
  · rintro ⟨i, rfl, block⟩
    exact ⟨y, g, mem, k, i, chain, row, block, rfl⟩

theorem LaidOut.floor (h : p.LaidOut cards program listing) {u : PlacedUnit} (mem : u ∈ listing) :
    u.position.site.y ∈ [0, 1, 2, 3, 4, 6] := by
  obtain ⟨y, g, floor, k, i, chain, row, block, site⟩ :=
    (h.mem_entries _ _).1 (List.mem_map_of_mem (f := PlacedUnit.entry) mem)
  rw [show u.position.site = _ from site]
  exact List.mem_map_of_mem (f := Prod.fst) floor

theorem IsStandard.firstKind_main {head cloner fetcher : Entity}
    (standard : p.IsStandard cards head cloner fetcher) :
    ∀ chain ∈ p.main.chains, chain.firstKind = .impulse := by
  obtain ⟨window, primary⟩ := standard.primary
  refine List.forall_mem_cons.2 ⟨rfl, List.forall_mem_singleton.2 ?_⟩
  rw [Chain.firstKind, primary.onlyChain]
  rfl

/-- A unit starts a chain exactly if it is the first one of a chain of the main group. -/
theorem LaidOut.kind_eq_impulse_iff (h : p.LaidOut cards program listing) {u : PlacedUnit}
    (mem : u ∈ listing) : u.kind = .impulse ↔
      u.position.site = ⟨0, 0, 0⟩ ∨ u.position.site = ⟨0, 0, 1⟩ := by
  obtain ⟨s, s', made⟩ := h.made
  obtain ⟨head, cloner, fetcher, standard⟩ := ensures_make cards program s p s' made
  obtain ⟨y, g, floor, k, i, chain, row, block, site⟩ :=
    (h.mem_entries _ _).1 (List.mem_map_of_mem (f := PlacedUnit.entry) mem)
  obtain ⟨command, -, same⟩ := Option.map_eq_some_iff.1 block
  have kind : u.kind = kindAt chain.firstKind i := (Block.unit.inj same).1.symm
  have inGroup := List.mem_of_getElem? row
  rw [kind, show u.position.site = _ from site]
  simp only [Site.mk.injEq]
  by_cases ground : y = 0
  · have main : g = p.main := by
      subst ground
      simpa [floors] using floor
    subst main
    have few : k < 2 := (List.getElem?_eq_some_iff.1 row).1
    rw [standard.firstKind_main chain inGroup, kindAt]
    split <;> simp <;> omega
  · rw [Chain.firstKind, standard.onlyChain floor ground chain inGroup, kindAt]
    split <;> simp [ground]

theorem LaidOut.commands_ne_nil (h : p.LaidOut cards program listing) :
    p.init ≠ [] ∧ p.primary.commands ≠ [] := by
  obtain ⟨s, s', made⟩ := h.made
  obtain ⟨head, cloner, fetcher, standard⟩ := ensures_make cards program s p s' made
  obtain ⟨window, primary⟩ := standard.primary
  have filled := Listing.onlyChain_of_writeGroups (Listing.perform_of_ofGroups h.placed)
    (Layout.mainGroup, p.main) (List.mem_cons_self)
  refine ⟨fun empty => ?_, fun empty => ?_⟩
  · cases filled { label := "init", commands := p.init } List.mem_cons_self empty
  · cases primary.onlyChain.symm.trans
      (filled p.primary (List.mem_cons_of_mem _ List.mem_cons_self) empty)

theorem LaidOut.isLayout (h : p.LaidOut cards program listing) : p.IsLayout listing where
  distinct := Listing.nodup_sites h.placed p.atDifferentHeights_groups
  units := h.mem_entries
  rows _ _ mem _ _ row := h.mem_row mem row
  memory u mem inMemory := by
    have floor := h.floor mem
    have height := inMemory.2.1
    simp only [List.mem_cons, List.not_mem_nil, or_false] at floor
    omega
  buffer u mem below := by
    have floor := h.floor mem
    rw [below] at floor
    revert floor
    decide
  starts :=
    have ⟨init, primary⟩ := h.commands_ne_nil
    ⟨init, primary, fun _ mem => h.kind_eq_impulse_iff mem⟩

end Parts

/-- Whenever a build succeeds, the units of its listing stand without collisions. -/
theorem units_stand_apart {cards : List (Card Id)} {program : List UInt16} {s s' : Session}
    {listing : Listing} (built : perform (build cards program) s = (.ok listing, s')) :
    ∃ p : Parts, p.LaidOut cards program listing ∧ p.IsLayout listing := by
  obtain ⟨p, laidOut⟩ := Parts.exists_laidOut built
  exact ⟨p, laidOut, laidOut.isLayout⟩

def silentCard : Card Id where
  name := "silent"
  generate _ := pure ()

theorem units_stand_apart_silentCard :
    ∃ (p : Parts) (listing : Listing) (s' : Session),
      perform (build [silentCard, printCard ⟨"shown"⟩] [1, 2]) {} = (.ok listing, s') ∧
        p.IsLayout listing := by
  have succeeds : (perform (build [silentCard, printCard ⟨"shown"⟩] [1, 2]) {}).1.toBool = true := by
    decide +kernel
  cases built : perform (build [silentCard, printCard ⟨"shown"⟩] [1, 2]) {} with
  | mk outcome s' =>
    rw [built] at succeeds
    cases outcome with
    | error e => cases succeeds
    | ok listing =>
      obtain ⟨p, -, layout⟩ := units_stand_apart built
      exact ⟨p, listing, s', rfl, layout⟩

end BlockComputer.Machine
