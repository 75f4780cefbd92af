import BlockComputer.Proofs.Emission.Basic
import BlockComputer.Proofs.World.Running
import Mathlib.Data.List.Nodup

/-!
Where a listing puts what.

A listing of groups holds the units of every chain in a row to the east, and the rows of a group to the
south of each other. In the world of a listing whose groups lie at different heights each unit stands
where its group, its row and its number say, and nothing else stands anywhere.
-/

namespace BlockComputer

def Site.south (p : Site) (n : Nat) : Site :=
  { p with z := p.z + n }

theorem narrow_eq_ok {n : Int} {k : Int32} (h : narrow n = .ok k) : k.toInt = n := by
  unfold narrow at h
  split at h
  · next range =>
    cases h
    exact Int32.toInt_ofInt_of_le range.1 range.2
  · cases h

theorem Axis.add_eq_ok {a b c : Axis} (h : a.add b = .ok c) :
    c.value.toInt = a.value.toInt + b.value.toInt := by
  unfold Axis.add at h
  cases sum : narrow (a.value.toInt + b.value.toInt) with
  | error e => simp [sum, bind, Except.bind] at h
  | ok k =>
    simp only [sum, bind, Except.bind, pure, Except.pure] at h
    cases h
    exact narrow_eq_ok sum

theorem Position.add_eq_ok {p q r : Position} (h : p.add q = .ok r) :
    r.site = ⟨p.site.x + q.site.x, p.site.y + q.site.y, p.site.z + q.site.z⟩ := by
  unfold Position.add at h
  cases hx : p.x.add q.x with
  | error e => simp [hx, bind, Except.bind] at h
  | ok x =>
    cases hy : p.y.add q.y with
    | error e => simp [hx, hy, bind, Except.bind] at h
    | ok y =>
      cases hz : p.z.add q.z with
      | error e => simp [hx, hy, hz, bind, Except.bind] at h
      | ok z =>
        simp only [hx, hy, hz, bind, Except.bind, pure, Except.pure] at h
        cases h
        simp only [site, Axis.add_eq_ok hx, Axis.add_eq_ok hy, Axis.add_eq_ok hz]

theorem Position.add_east {p q : Position} (h : p.add .east = .ok q) : q.site = p.site.shift 1 := by
  rw [add_eq_ok h]
  simp [site, east, absolute, Site.shift]

theorem Position.add_south {p q : Position} (h : p.add .south = .ok q) : q.site = p.site.south 1 := by
  rw [add_eq_ok h]
  simp [site, south, absolute, Site.south]

def PlacedUnit.entry (u : PlacedUnit) : Site × Block :=
  (u.position.site, .unit u.kind u.command)

namespace Chain

def firstKind (chain : Chain) : UnitKind :=
  if chain.onlyChain then .chain else .impulse

def entries (chain : Chain) (p : Site) : List (Site × Block) :=
  chain.commands.mapIdx fun i c => (p.shift i, .unit (kindAt chain.firstKind i) c)

end Chain

def chainEntries (p : Site) (chains : List Chain) : List (Site × Block) :=
  (chains.mapIdx fun r chain => chain.entries (p.south r)).flatten

theorem chainEntries_cons (p : Site) (chain : Chain) (chains : List Chain) :
    chainEntries p (chain :: chains) = chain.entries p ++ chainEntries (p.south 1) chains := by
  rw [chainEntries, chainEntries, List.mapIdx_cons, List.flatten_cons]
  simp [Site.south, Int.add_left_comm, Int.add_comm]

theorem placeUnits_entries {kind : UnitKind} {position behind : Position} {cs : List Command}
    {units : List PlacedUnit} (h : placeUnits kind position cs = .ok (units, behind)) :
    behind.site = position.site.shift cs.length ∧
      units.map PlacedUnit.entry = cs.mapIdx fun i c => (position.site.shift i, .unit kind c) := by
  induction cs generalizing position units with
  | nil =>
    cases h
    simp
  | cons c cs ih =>
    unfold placeUnits at h
    cases moved : position.add .east with
    | error e => simp [moved, bind, Except.bind] at h
    | ok next =>
      cases placed : placeUnits kind next cs with
      | error e => simp [moved, placed, bind, Except.bind] at h
      | ok others =>
        simp only [moved, placed, bind, Except.bind, pure, Except.pure] at h
        cases h
        obtain ⟨last, entries⟩ := ih placed
        rw [Position.add_east moved] at last entries
        refine ⟨?_, ?_⟩
        · rw [last, Site.shift_shift, List.length_cons, Nat.add_comm]
        · rw [List.map_cons, entries, List.mapIdx_cons]
          simp [PlacedUnit.entry, Nat.add_comm]

theorem Chain.place_entries {chain : Chain} {position : Position} {units : List PlacedUnit}
    (h : chain.place position = .ok units) :
    units.map PlacedUnit.entry = chain.entries position.site := by
  unfold place at h
  unfold entries
  cases cs : chain.commands with
  | nil =>
    rw [cs] at h
    by_cases only : chain.onlyChain = true
    · simp only [only, if_true] at h
      cases h
      rfl
    · simp [only] at h
  | cons c cs' =>
    rw [cs] at h
    simp only at h
    cases first : placeUnits (if chain.onlyChain = true then .chain else .impulse) position [c] with
    | error e => simp [first, bind, Except.bind] at h
    | ok start =>
      cases later : placeUnits .chain start.2 cs' with
      | error e => simp [first, later, bind, Except.bind] at h
      | ok others =>
        simp only [first, later, bind, Except.bind, pure, Except.pure] at h
        cases h
        obtain ⟨behind, head⟩ := placeUnits_entries first
        obtain ⟨-, tail⟩ := placeUnits_entries later
        rw [behind] at tail
        rw [List.map_append, head, tail, List.mapIdx_cons]
        simp [kindAt, firstKind, Nat.add_comm]

namespace Listing

theorem writeChain_entries {position : Position} {chain : Chain} {before after : Listing}
    (h : perform (writeChain position chain) before = (.ok (), after)) :
    after.map PlacedUnit.entry = before.map PlacedUnit.entry ++ chain.entries position.site := by
  obtain ⟨units, _, lifted, written⟩ := perform_bind_eq_ok h
  obtain ⟨placed, rfl⟩ := perform_lift_eq_ok lifted
  cases written
  rw [List.map_append, chain.place_entries placed]

theorem writeChains_entries {position : Position} {chains : List Chain} {before after : Listing}
    (h : perform (writeChains position chains) before = (.ok (), after)) :
    after.map PlacedUnit.entry =
      before.map PlacedUnit.entry ++ chainEntries position.site chains := by
  induction chains generalizing position before with
  | nil =>
    cases h
    simp [chainEntries]
  | cons chain chains ih =>
    obtain ⟨_, middle, first, h⟩ := perform_bind_eq_ok h
    obtain ⟨next, _, lifted, later⟩ := perform_bind_eq_ok h
    obtain ⟨moved, rfl⟩ := perform_lift_eq_ok lifted
    have head := writeChain_entries first
    have tail := ih later
    rw [Position.add_south moved] at tail
    rw [tail, head, List.append_assoc, chainEntries_cons]

theorem writeGroups_entries {groups : List (Position × ChainGroup)} {before after : Listing}
    (h : perform (groups.forM fun g => writeGroup g.1 g.2 : PlaceM Unit) before = (.ok (), after)) :
    after.map PlacedUnit.entry =
      before.map PlacedUnit.entry ++ groups.flatMap fun g => chainEntries g.1.site g.2.chains := by
  induction groups generalizing before with
  | nil =>
    cases h
    simp
  | cons g groups ih =>
    obtain ⟨_, middle, first, later⟩ := perform_bind_eq_ok h
    rw [ih later, writeChains_entries first, List.flatMap_cons, List.append_assoc]

theorem onlyChain_of_writeChains {position : Position} {chains : List Chain} {before after : Listing}
    (h : perform (writeChains position chains) before = (.ok (), after)) :
    ∀ chain ∈ chains, chain.commands = [] → chain.onlyChain = true := by
  induction chains generalizing position before with
  | nil => exact fun _ mem => nomatch mem
  | cons chain chains ih =>
    obtain ⟨_, middle, first, h⟩ := perform_bind_eq_ok h
    obtain ⟨next, _, -, later⟩ := perform_bind_eq_ok h
    refine List.forall_mem_cons.2 ⟨fun empty => ?_, ih later⟩
    obtain ⟨units, _, lifted, -⟩ := perform_bind_eq_ok first
    obtain ⟨placed, -⟩ := perform_lift_eq_ok lifted
    unfold Chain.place at placed
    rw [empty] at placed
    dsimp only at placed
    split at placed
    · assumption
    · cases placed

theorem onlyChain_of_writeGroups {groups : List (Position × ChainGroup)} {before after : Listing}
    (h : perform (groups.forM fun g => writeGroup g.1 g.2 : PlaceM Unit) before = (.ok (), after)) :
    ∀ g ∈ groups, ∀ chain ∈ g.2.chains, chain.commands = [] → chain.onlyChain = true := by
  induction groups generalizing before with
  | nil => exact fun _ mem => nomatch mem
  | cons g groups ih =>
    obtain ⟨_, middle, first, later⟩ := perform_bind_eq_ok h
    exact List.forall_mem_cons.2 ⟨onlyChain_of_writeChains first, ih later⟩

theorem perform_of_ofGroups {groups : List (Position × ChainGroup)} {listing : Listing}
    (h : ofGroups groups = .ok listing) :
    perform (groups.forM fun g => writeGroup g.1 g.2 : PlaceM Unit) [] = (.ok (), listing) := by
  unfold ofGroups at h
  unfold perform
  cases written : (groups.forM fun g => writeGroup g.1 g.2 : PlaceM Unit).run.run [] with
  | mk outcome after =>
    rw [written] at h
    cases outcome with
    | error e => cases h
    | ok _ =>
      cases h
      rfl

theorem ofGroups_entries {groups : List (Position × ChainGroup)} {listing : Listing}
    (h : ofGroups groups = .ok listing) :
    listing.map PlacedUnit.entry = groups.flatMap fun g => chainEntries g.1.site g.2.chains :=
  writeGroups_entries (perform_of_ofGroups h)

end Listing

def Chain.blockAt? (chain : Chain) (i : Nat) : Option Block :=
  chain.commands[i]?.map (Block.unit (kindAt chain.firstKind i))

/-- A group puts the start of the chain at the site. -/
def StandsAt (groups : List (Position × ChainGroup)) (chain : Chain) (p : Site) : Prop :=
  ∃ g ∈ groups, ∃ r, g.2.chains[r]? = some chain ∧ p = g.1.site.south r

theorem mem_entries_iff {groups : List (Position × ChainGroup)} {q : Site} {b : Block} :
    (q, b) ∈ (groups.flatMap fun g => chainEntries g.1.site g.2.chains) ↔
      ∃ chain p i, StandsAt groups chain p ∧ chain.blockAt? i = some b ∧ q = p.shift i := by
  simp only [List.mem_flatMap, chainEntries, List.mem_flatten, List.mem_mapIdx, StandsAt]
  constructor
  · rintro ⟨g, mem, _, ⟨r, hr, rfl⟩, inChain⟩
    simp only [Chain.entries, List.mem_mapIdx] at inChain
    obtain ⟨i, hi, same⟩ := inChain
    cases same
    refine ⟨_, _, i, ⟨g, mem, r, List.getElem?_eq_getElem hr, rfl⟩, ?_, rfl⟩
    rw [Chain.blockAt?, List.getElem?_eq_getElem hi]
    rfl
  · rintro ⟨chain, _, i, ⟨g, mem, r, hr, rfl⟩, block, rfl⟩
    obtain ⟨inGroup, rfl⟩ := List.getElem?_eq_some_iff.1 hr
    obtain ⟨c, command, rfl⟩ := Option.map_eq_some_iff.1 block
    obtain ⟨hi, rfl⟩ := List.getElem?_eq_some_iff.1 command
    refine ⟨g, mem, _, ⟨r, inGroup, rfl⟩, ?_⟩
    simp only [Chain.entries, List.mem_mapIdx]
    exact ⟨i, hi, rfl⟩

def AtDifferentHeights (groups : List (Position × ChainGroup)) : Prop :=
  (groups.map fun g => g.1.site.y).Nodup

theorem StandsAt.unique {groups : List (Position × ChainGroup)} (heights : AtDifferentHeights groups)
    {chain chain' : Chain} {p p' : Site} {i i' : Nat} (h : StandsAt groups chain p)
    (h' : StandsAt groups chain' p') (same : p.shift i = p'.shift i') : chain = chain' ∧ i = i' := by
  obtain ⟨g, mem, r, row, rfl⟩ := h
  obtain ⟨g', mem', r', row', rfl⟩ := h'
  simp only [Site.shift, Site.south, Site.mk.injEq] at same
  obtain rfl : g = g' := List.inj_on_of_nodup_map heights mem mem' same.2.1
  obtain rfl : r = r' := by omega
  rw [row] at row'
  exact ⟨Option.some.inj row', by omega⟩

theorem Chain.mem_entries {chain : Chain} {p q : Site} (mem : q ∈ (chain.entries p).map Prod.fst) :
    ∃ i, q = p.shift i := by
  simp only [entries, List.mem_map, List.mem_mapIdx] at mem
  obtain ⟨_, ⟨i, _, rfl⟩, rfl⟩ := mem
  exact ⟨i, rfl⟩

theorem mem_chainEntries {chains : List Chain} {p q : Site}
    (mem : q ∈ (chainEntries p chains).map Prod.fst) : q.y = p.y ∧ p.z ≤ q.z := by
  induction chains generalizing p with
  | nil => cases mem
  | cons chain chains ih =>
    rw [chainEntries_cons, List.map_append, List.mem_append] at mem
    rcases mem with here | south
    · obtain ⟨i, rfl⟩ := chain.mem_entries here
      exact ⟨rfl, Int.le_refl p.z⟩
    · obtain ⟨height, behind⟩ := ih south
      have step : (p.south 1).z = p.z + 1 := rfl
      exact ⟨height, by omega⟩

theorem Chain.nodup_entries (chain : Chain) (p : Site) : ((chain.entries p).map Prod.fst).Nodup := by
  refine List.nodup_iff_injective_getElem.2 fun i j same => ?_
  simp only [entries, List.getElem_map, List.getElem_mapIdx, Site.shift, Site.mk.injEq] at same
  exact Fin.ext (by omega)

theorem nodup_chainEntries (p : Site) (chains : List Chain) :
    ((chainEntries p chains).map Prod.fst).Nodup := by
  induction chains generalizing p with
  | nil => exact List.nodup_nil
  | cons chain chains ih =>
    rw [chainEntries_cons, List.map_append]
    refine List.nodup_append.2 ⟨chain.nodup_entries p, ih _, fun q here q' south same => ?_⟩
    obtain ⟨i, rfl⟩ := chain.mem_entries here
    have behind := (mem_chainEntries south).2
    rw [← same] at behind
    have step : (p.south 1).z = p.z + 1 := rfl
    simp only [Site.shift] at behind
    omega

/-- In a listing whose groups lie at different heights no two units stand at one site. -/
theorem Listing.nodup_sites {groups : List (Position × ChainGroup)} {listing : Listing}
    (made : ofGroups groups = .ok listing) (heights : AtDifferentHeights groups) :
    (listing.map fun u => u.position.site).Nodup := by
  have sites : (listing.map fun u => u.position.site) =
      groups.flatMap fun g => (chainEntries g.1.site g.2.chains).map Prod.fst := by
    rw [← List.map_flatMap, ← ofGroups_entries made, List.map_map]
    rfl
  rw [sites]
  clear made sites
  induction groups with
  | nil => exact List.nodup_nil
  | cons g groups ih =>
    rw [AtDifferentHeights, List.map_cons, List.nodup_cons] at heights
    rw [List.flatMap_cons]
    refine List.nodup_append.2 ⟨nodup_chainEntries _ _, ih heights.2, fun q here q' there same => ?_⟩
    obtain ⟨other, mem, there⟩ := List.mem_flatMap.1 there
    refine heights.1 (List.mem_map.2 ⟨other, mem, ?_⟩)
    rw [← (mem_chainEntries here).1, ← (mem_chainEntries there).1, same]

namespace World

variable {groups : List (Position × ChainGroup)} {listing : Listing} {q : Site}

theorem foldl_place_eq_some (listing : Listing) {blocks : Site → Option Block} {b : Block}
    (h : listing.foldl place blocks q = some b) :
    blocks q = some b ∨ (q, b) ∈ listing.map PlacedUnit.entry := by
  induction listing generalizing blocks with
  | nil => exact .inl h
  | cons u listing ih =>
    rw [List.map_cons, List.mem_cons]
    rcases ih h with placed | later
    · by_cases here : q = u.position.site
      · subst here
        rw [place, Function.update_self, Option.some.injEq] at placed
        exact .inr (.inl (by rw [← placed]; rfl))
      · rw [place, Function.update_of_ne here] at placed
        exact .inl placed
    · exact .inr (.inr later)

theorem foldl_place_ne_none (listing : Listing) {blocks : Site → Option Block}
    (h : blocks q ≠ none ∨ ∃ b, (q, b) ∈ listing.map PlacedUnit.entry) :
    listing.foldl place blocks q ≠ none := by
  induction listing generalizing blocks with
  | nil => simpa using h
  | cons u listing ih =>
    refine ih ?_
    by_cases here : q = u.position.site
    · left
      simp [place, here]
    · rw [place, Function.update_of_ne here]
      refine h.imp_right ?_
      rintro ⟨b, mem⟩
      rw [List.map_cons, List.mem_cons] at mem
      rcases mem with same | later
      · exact absurd (congrArg Prod.fst same) here
      · exact ⟨b, later⟩

variable (made : Listing.ofGroups groups = .ok listing) (heights : AtDifferentHeights groups)

include made in
theorem blocks_ofListing_eq_none
    (free : ∀ chain p i, StandsAt groups chain p → q = p.shift i → chain.blockAt? i = none) :
    (ofListing listing).blocks q = none := by
  cases found : (ofListing listing).blocks q with
  | none => rfl
  | some b =>
    rcases foldl_place_eq_some listing found with absent | mem
    · cases absent
    · rw [Listing.ofGroups_entries made, mem_entries_iff] at mem
      obtain ⟨chain, p, i, stands, block, rfl⟩ := mem
      rw [free chain p i stands rfl] at block
      cases block

include made heights in
/-- The units of a chain stand one after the other, and behind them there is air. -/
theorem blocks_ofListing {chain : Chain} {p : Site} (stands : StandsAt groups chain p) (i : Nat) :
    (ofListing listing).blocks (p.shift i) = chain.blockAt? i := by
  cases block : chain.blockAt? i with
  | none =>
    refine blocks_ofListing_eq_none made fun chain' p' i' stands' same => ?_
    obtain ⟨rfl, rfl⟩ := stands.unique heights stands' same
    exact block
  | some b =>
    have mem : (p.shift i, b) ∈ listing.map PlacedUnit.entry := by
      rw [Listing.ofGroups_entries made, mem_entries_iff]
      exact ⟨chain, p, i, stands, block, rfl⟩
    cases found : (ofListing listing).blocks (p.shift i) with
    | none =>
      exact absurd found (foldl_place_ne_none listing (.inr ⟨b, mem⟩))
    | some b' =>
      rcases foldl_place_eq_some listing found with absent | mem'
      · cases absent
      · rw [Listing.ofGroups_entries made, mem_entries_iff] at mem'
        obtain ⟨chain', p', i', stands', block', same⟩ := mem'
        obtain ⟨rfl, rfl⟩ := stands.unique heights stands' same
        rw [← block', block]

end World

end BlockComputer
