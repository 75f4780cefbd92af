import BlockComputer.Proofs.Listing.Placement

/-!
The rows of a group, unit by unit.

Where the coordinates leave room, a chain is laid out to the east of its position and the chains of a group
to the south of each other, with the same axes relative as in the position. The first chain that should
start and has no command stops the group behind the chains before it.

Laying out also computes the position behind the last unit and the one behind the last chain. So there has
to be room for one step more than there are units or chains: a unit or a chain at the greatest coordinate
has a position, but placing it is a crash.
-/

namespace BlockComputer

theorem narrow_eq_ofInt {n : Int} (low : -2 ^ 31 ≤ n) (high : n < 2 ^ 31) :
    narrow n = .ok (Int32.ofInt n) :=
  if_pos ⟨low, high⟩

theorem narrow_eq_crash {n : Int} (past : 2 ^ 31 ≤ n) : narrow n = .error .crash :=
  if_neg fun range => Int.not_lt.2 past range.2

namespace Axis

def plus (a : Axis) (n : Nat) : Axis :=
  { a with value := .ofInt (a.value.toInt + n) }

variable {a : Axis} {n : Nat}

@[simp] theorem plus_zero (a : Axis) : a.plus 0 = a := by
  simp [plus]

@[simp] theorem plus_plus (a : Axis) (m n : Nat) : (a.plus m).plus n = a.plus (m + n) := by
  simp only [plus, Int.natCast_add, Int32.ofInt_add, Int32.ofInt_toInt, Int32.add_assoc]

theorem toInt_plus (room : a.value.toInt + n < 2 ^ 31) : (a.plus n).value.toInt = a.value.toInt + n := by
  have low := Int32.le_toInt a.value
  exact Int32.toInt_ofInt_of_le (by omega) room

@[simp] theorem add_zero (a : Axis) : a.add ⟨0, false⟩ = .ok a := by
  have low := Int32.le_toInt a.value
  have high := Int32.toInt_lt a.value
  rw [add, Int32.toInt_zero, narrow_eq_ofInt (by omega) (by omega), Int.add_zero, Int32.ofInt_toInt,
    Bool.or_false]
  rfl

theorem add_one (room : a.value.toInt + 1 < 2 ^ 31) : a.add ⟨1, false⟩ = .ok (a.plus 1) := by
  have low := Int32.le_toInt a.value
  have one : (1 : Int32).toInt = 1 := rfl
  rw [add, one, narrow_eq_ofInt (by omega) room, Bool.or_false]
  rfl

theorem add_one_of_last (last : 2 ^ 31 ≤ a.value.toInt + 1) : a.add ⟨1, false⟩ = .error .crash := by
  have one : (1 : Int32).toInt = 1 := rfl
  rw [add, one, narrow_eq_crash last]
  rfl

end Axis

namespace Position

def eastward (p : Position) (n : Nat) : Position :=
  { p with x := p.x.plus n }

def southward (p : Position) (n : Nat) : Position :=
  { p with z := p.z.plus n }

variable {p : Position}

@[simp] theorem eastward_zero (p : Position) : p.eastward 0 = p := by
  simp [eastward]

@[simp] theorem eastward_eastward (p : Position) (m n : Nat) :
    (p.eastward m).eastward n = p.eastward (m + n) := by
  simp [eastward]

@[simp] theorem southward_zero (p : Position) : p.southward 0 = p := by
  simp [southward]

@[simp] theorem southward_southward (p : Position) (m n : Nat) :
    (p.southward m).southward n = p.southward (m + n) := by
  simp [southward]

theorem add_east_eq_ok (room : p.x.value.toInt + 1 < 2 ^ 31) : p.add .east = .ok (p.eastward 1) := by
  simp [add, east, absolute, Axis.add_one room, eastward, bind, Except.bind, pure, Except.pure]

theorem add_east_eq_crash (last : 2 ^ 31 ≤ p.x.value.toInt + 1) : p.add .east = .error .crash := by
  simp [add, east, absolute, Axis.add_one_of_last last, bind, Except.bind]

theorem add_south_eq_ok (room : p.z.value.toInt + 1 < 2 ^ 31) : p.add .south = .ok (p.southward 1) := by
  simp [add, south, absolute, Axis.add_one room, southward, bind, Except.bind, pure, Except.pure]

theorem add_south_eq_crash (last : 2 ^ 31 ≤ p.z.value.toInt + 1) : p.add .south = .error .crash := by
  simp [add, south, absolute, Axis.add_one_of_last last, bind, Except.bind]

end Position

theorem placeUnits_eq_ok (kind : UnitKind) {p : Position} (cs : List Command)
    (room : p.x.value.toInt + cs.length < 2 ^ 31) : placeUnits kind p cs =
      .ok (cs.mapIdx fun i c => ⟨p.eastward i, kind, c⟩, p.eastward cs.length) := by
  induction cs generalizing p with
  | nil => simp [placeUnits]
  | cons c cs ih =>
    rw [List.length_cons, Int.natCast_add, Int.natCast_one] at room
    have next : (p.eastward 1).x.value.toInt = p.x.value.toInt + 1 := Axis.toInt_plus (by omega)
    have others := ih (p := p.eastward 1) (by omega)
    simp only [Position.eastward_eastward] at others
    rw [placeUnits, Position.add_east_eq_ok (by omega), List.mapIdx_cons, List.length_cons]
    simp only [others, bind, Except.bind, pure, Except.pure, Position.eastward_zero, Nat.add_comm 1]

theorem placeUnits_eq_crash (kind : UnitKind) {p : Position} {cs : List Command}
    (past : 2 ^ 31 ≤ p.x.value.toInt + cs.length) : placeUnits kind p cs = .error .crash := by
  induction cs generalizing p with
  | nil =>
    have inside := Int32.toInt_lt p.x.value
    simp only [List.length_nil] at past
    omega
  | cons c cs ih =>
    rw [List.length_cons, Int.natCast_add, Int.natCast_one] at past
    rcases Int.lt_or_le (p.x.value.toInt + 1) (2 ^ 31) with room | last
    · have next : (p.eastward 1).x.value.toInt = p.x.value.toInt + 1 := Axis.toInt_plus room
      rw [placeUnits, Position.add_east_eq_ok room]
      simp only [ih (p := p.eastward 1) (by omega), bind, Except.bind]
    · rw [placeUnits, Position.add_east_eq_crash last]
      rfl

namespace Chain

def IsVoid (chain : Chain) : Prop :=
  chain.commands = [] ∧ chain.onlyChain = false

instance (chain : Chain) : Decidable chain.IsVoid :=
  inferInstanceAs (Decidable (_ ∧ _))

def row (chain : Chain) (p : Position) : Listing :=
  chain.commands.mapIdx fun i c => ⟨p.eastward i, kindAt chain.firstKind i, c⟩

variable {chain : Chain} {p : Position}

theorem place_eq_ok (solid : ¬ chain.IsVoid) (room : p.x.value.toInt + chain.length < 2 ^ 31) :
    chain.place p = .ok (chain.row p) := by
  unfold length at room
  unfold place row
  cases commands : chain.commands with
  | nil =>
    have only : chain.onlyChain = true := by
      simpa [IsVoid, commands] using solid
    exact if_pos only
  | cons c cs =>
    rw [commands, List.length_cons, Int.natCast_add, Int.natCast_one] at room
    have next : (p.eastward 1).x.value.toInt = p.x.value.toInt + 1 := Axis.toInt_plus (by omega)
    have first := placeUnits_eq_ok chain.firstKind (p := p) [c] (by simp; omega)
    have others := placeUnits_eq_ok .chain (p := p.eastward 1) cs (by omega)
    simp only [Position.eastward_eastward, Nat.add_comm 1] at others
    unfold firstKind at first
    simp only [first, List.length_singleton, others, bind, Except.bind, pure, Except.pure, List.mapIdx_cons,
      List.mapIdx_nil, List.singleton_append, kindAt, firstKind, if_true, Nat.succ_ne_zero, if_false]

theorem place_eq_emptyChain (isVoid : chain.IsVoid) (p : Position) :
    chain.place p = .error (.error (.emptyChain chain.label)) := by
  simp [place, isVoid.1, isVoid.2]

/-- The position behind the last unit is computed too, so it has to exist. -/
theorem place_eq_crash (busy : chain.commands ≠ []) (past : 2 ^ 31 ≤ p.x.value.toInt + chain.length) :
    chain.place p = .error .crash := by
  unfold length at past
  unfold place
  cases commands : chain.commands with
  | nil => exact absurd commands busy
  | cons c cs =>
    rw [commands, List.length_cons, Int.natCast_add, Int.natCast_one] at past
    rcases Int.lt_or_le (p.x.value.toInt + 1) (2 ^ 31) with room | last
    · have next : (p.eastward 1).x.value.toInt = p.x.value.toInt + 1 := Axis.toInt_plus room
      have first := placeUnits_eq_ok chain.firstKind (p := p) [c] (by simpa using room)
      have others : placeUnits .chain (p.eastward 1) cs = .error .crash := placeUnits_eq_crash _ (by omega)
      unfold firstKind at first
      simp only [first, List.length_singleton, others, bind, Except.bind]
    · have first : placeUnits chain.firstKind p [c] = .error .crash :=
        placeUnits_eq_crash _ (by simpa using last)
      unfold firstKind at first
      simp only [first, bind, Except.bind]

end Chain

namespace Listing

def rows (p : Position) (chains : List Chain) : Listing :=
  (chains.mapIdx fun k chain => chain.row (p.southward k)).flatten

theorem rows_cons (p : Position) (chain : Chain) (chains : List Chain) :
    rows p (chain :: chains) = chain.row p ++ rows (p.southward 1) chains := by
  simp [rows, List.mapIdx_cons, Nat.add_comm 1]

variable {p : Position} {chain : Chain} {before others : List Chain}

theorem perform_writeChain_row (solid : ¬ chain.IsVoid) (room : p.x.value.toInt + chain.length < 2 ^ 31)
    (listing : Listing) :
    perform (writeChain p chain) listing = (.ok (), listing ++ chain.row p) := by
  rw [writeChain, chain.place_eq_ok solid room]
  rfl

theorem perform_writeChain_of_error {e : Failure} (failed : chain.place p = .error e) (listing : Listing) :
    perform (writeChain p chain) listing = (.error e, listing) := by
  rw [writeChain, failed]
  rfl

theorem perform_writeChains_of_error {e : Failure} (failed : chain.place p = .error e) (listing : Listing) :
    perform (writeChains p (chain :: others)) listing = (.error e, listing) := by
  rw [writeChains, perform_bind, perform_writeChain_of_error failed]

theorem perform_writeChains_append (solid : ∀ c ∈ before, ¬ c.IsVoid)
    (east : ∀ c ∈ before, p.x.value.toInt + c.length < 2 ^ 31)
    (south : p.z.value.toInt + before.length < 2 ^ 31) (listing : Listing) :
    perform (writeChains p (before ++ others)) listing =
      perform (writeChains (p.southward before.length) others) (listing ++ rows p before) := by
  induction before generalizing p listing with
  | nil => simp [rows]
  | cons c before ih =>
    rw [List.forall_mem_cons] at solid east
    rw [List.length_cons, Int.natCast_add, Int.natCast_one] at south
    have next : (p.southward 1).z.value.toInt = p.z.value.toInt + 1 := Axis.toInt_plus (by omega)
    rw [List.cons_append, writeChains, perform_bind, perform_writeChain_row solid.1 east.1]
    simp only
    rw [Position.add_south_eq_ok (by omega)]
    change perform (writeChains (p.southward 1) (before ++ others)) _ = _
    rw [ih (p := p.southward 1) solid.2 east.2 (by omega), rows_cons, List.append_assoc,
      Position.southward_southward, List.length_cons, Nat.add_comm 1]

theorem perform_writeChains_rows (solid : ∀ c ∈ before, ¬ c.IsVoid)
    (east : ∀ c ∈ before, p.x.value.toInt + c.length < 2 ^ 31)
    (south : p.z.value.toInt + before.length < 2 ^ 31) (listing : Listing) :
    perform (writeChains p before) listing = (.ok (), listing ++ rows p before) := by
  have placed := @perform_writeChains_append p before [] solid east south listing
  rwa [List.append_nil] at placed

theorem perform_writeChains_of_isVoid (solid : ∀ c ∈ before, ¬ c.IsVoid) (isVoid : chain.IsVoid)
    (east : ∀ c ∈ before, p.x.value.toInt + c.length < 2 ^ 31)
    (south : p.z.value.toInt + before.length < 2 ^ 31) (listing : Listing) :
    perform (writeChains p (before ++ chain :: others)) listing =
      (.error (.error (.emptyChain chain.label)), listing ++ rows p before) := by
  rw [perform_writeChains_append solid east south,
    perform_writeChains_of_error (chain.place_eq_emptyChain isVoid _)]

/-- Chains of which one ends at the greatest coordinate, or that reach the greatest coordinate themselves,
are not placed. -/
theorem perform_writeChains_eq_crash {chains : List Chain} (busy : ∀ c ∈ chains, c.commands ≠ [])
    (past : (∃ c ∈ chains, 2 ^ 31 ≤ p.x.value.toInt + c.length) ∨
      2 ^ 31 ≤ p.z.value.toInt + chains.length) (listing : Listing) :
    (perform (writeChains p chains) listing).1 = .error .crash := by
  induction chains generalizing p listing with
  | nil =>
    have inside := Int32.toInt_lt p.z.value
    rcases past with ⟨c, mem, -⟩ | south
    · cases mem
    · rw [List.length_nil] at south
      omega
  | cons c chains ih =>
    rw [List.forall_mem_cons] at busy
    rcases Int.lt_or_le (p.x.value.toInt + c.length) (2 ^ 31) with room | edge
    · rw [writeChains, perform_bind, perform_writeChain_row (fun isVoid => busy.1 isVoid.1) room]
      simp only
      rcases Int.lt_or_le (p.z.value.toInt + 1) (2 ^ 31) with more | last
      · have next : (p.southward 1).z.value.toInt = p.z.value.toInt + 1 := Axis.toInt_plus more
        rw [Position.add_south_eq_ok more]
        refine ih (p := p.southward 1) busy.2 ?_ _
        rw [List.length_cons, Int.natCast_add, Int.natCast_one] at past
        rcases past with ⟨c', mem, edge⟩ | south
        · rcases List.mem_cons.1 mem with rfl | mem
          · exact absurd edge (Int.not_le.2 room)
          · exact .inl ⟨c', mem, edge⟩
        · exact .inr (by omega)
      · rw [Position.add_south_eq_crash last]
        rfl
    · rw [perform_writeChains_of_error (c.place_eq_crash busy.1 edge)]

theorem solid_or_exists_isVoid (chains : List Chain) : (∀ c ∈ chains, ¬ c.IsVoid) ∨
    ∃ before chain behind, chains = before ++ chain :: behind ∧ (∀ c ∈ before, ¬ c.IsVoid) ∧
      chain.IsVoid := by
  cases found : chains.find? fun c => c.IsVoid with
  | none => exact .inl (by simpa using found)
  | some chain =>
    obtain ⟨isVoid, before, behind, split, solid⟩ := List.find?_eq_some_iff_append.1 found
    exact .inr ⟨before, chain, behind, split, by simpa using solid, by simpa using isVoid⟩

end Listing

/-- The unit stands where unit `i` of the chain in row `k` of a group at the base has to stand, and is what
it has to be. -/
structure PlacedUnit.IsPlaced (u : PlacedUnit) (base : Position) (chain : Chain) (k i : Nat) : Prop where
  command : chain.commands[i]? = some u.command
  x : u.position.x.value.toInt = base.x.value.toInt + i
  y : u.position.y = base.y
  z : u.position.z.value.toInt = base.z.value.toInt + k
  relative : u.position.x.relative = base.x.relative ∧ u.position.z.relative = base.z.relative
  impulse : i = 0 ∧ chain.onlyChain = false → u.kind = .impulse ∧ u.auto = false
  chain : ¬ (i = 0 ∧ chain.onlyChain = false) → u.kind = .chain ∧ u.auto = true

theorem Chain.isPlaced_row {base : Position} {chain : Chain} {k i : Nat} {c : Command}
    (command : chain.commands[i]? = some c)
    (east : base.x.value.toInt + chain.length < 2 ^ 31) (south : base.z.value.toInt + k < 2 ^ 31) :
    ∃ u, (chain.row (base.southward k))[i]? = some u ∧ u.IsPlaced base chain k i := by
  have inside : i < chain.length := (List.getElem?_eq_some_iff.1 command).1
  have room : base.x.value.toInt + i < 2 ^ 31 := by omega
  refine ⟨⟨(base.southward k).eastward i, kindAt chain.firstKind i, c⟩, ?_, command,
    Axis.toInt_plus room, rfl, Axis.toInt_plus south, ⟨rfl, rfl⟩, ?_, ?_⟩
  · rw [row, List.getElem?_mapIdx, command]
    rfl
  · rintro ⟨rfl, starts⟩
    simp [kindAt, firstKind, starts, PlacedUnit.auto]
  · intro other
    have kind : kindAt chain.firstKind i = .chain := by
      unfold kindAt firstKind
      split
      · next first => exact if_pos (by simpa using fun starts => other ⟨first, starts⟩)
      · rfl
    rw [PlacedUnit.auto, kind]
    exact ⟨rfl, rfl⟩

/-- With room for one step behind the last unit and the last chain, a group is placed exactly if no chain
is void, unit by unit in the order of its chains, with the base's axes relative as they were. The first void
chain is the error, and behind it nothing is placed. -/
theorem groups_stand_in_rows (listing : Listing) (base : Position) (group : ChainGroup)
    (east : ∀ chain ∈ group.chains, base.x.value.toInt + chain.length < 2 ^ 31)
    (south : base.z.value.toInt + group.chains.length < 2 ^ 31) :
    (∀ after, perform (Listing.writeGroup base group) listing = (.ok (), after) ↔
      (∀ chain ∈ group.chains, ¬ chain.IsVoid) ∧ after = listing ++ Listing.rows base group.chains) ∧
    (∀ e after, perform (Listing.writeGroup base group) listing = (.error e, after) ↔
      ∃ before chain behind, group.chains = before ++ chain :: behind ∧
        (∀ c ∈ before, ¬ c.IsVoid) ∧ chain.IsVoid ∧
        e = .error (.emptyChain chain.label) ∧ after = listing ++ Listing.rows base before) ∧
    ∀ (k : Nat) (chain : Chain) (i : Nat) (c : Command), group.chains[k]? = some chain →
      chain.commands[i]? = some c → ∃ u : PlacedUnit,
        (chain.row (base.southward k))[i]? = some u ∧ u.IsPlaced base chain k i := by
  unfold Listing.writeGroup
  generalize group.chains = chains at *
  have placed (solid : ∀ chain ∈ chains, ¬ chain.IsVoid) :
      perform (Listing.writeChains base chains) listing =
        (.ok (), listing ++ Listing.rows base chains) :=
    Listing.perform_writeChains_rows solid east south listing
  have stopped {before behind : List Chain} {chain : Chain} (split : chains = before ++ chain :: behind)
      (solid : ∀ c ∈ before, ¬ c.IsVoid) (isVoid : chain.IsVoid) :
      perform (Listing.writeChains base chains) listing =
        (.error (.error (.emptyChain chain.label)), listing ++ Listing.rows base before) := by
    subst split
    rw [List.length_append, Int.natCast_add] at south
    exact Listing.perform_writeChains_of_isVoid solid isVoid
      (fun c mem => east c (List.mem_append_left _ mem)) (by omega) listing
  refine ⟨fun after => ⟨fun ok => ?_, ?_⟩, fun e after => ⟨fun failed => ?_, ?_⟩, ?_⟩
  · rcases Listing.solid_or_exists_isVoid chains with solid | ⟨before, chain, behind, split, solid, isVoid⟩
    · rw [placed solid] at ok
      cases ok
      exact ⟨solid, rfl⟩
    · rw [stopped split solid isVoid] at ok
      cases ok
  · rintro ⟨solid, rfl⟩
    exact placed solid
  · rcases Listing.solid_or_exists_isVoid chains with solid | ⟨before, chain, behind, split, solid, isVoid⟩
    · rw [placed solid] at failed
      cases failed
    · rw [stopped split solid isVoid] at failed
      cases failed
      exact ⟨before, chain, behind, split, solid, isVoid, rfl, rfl⟩
  · rintro ⟨before, chain, behind, split, solid, isVoid, rfl, rfl⟩
    exact stopped split solid isVoid
  · intro k chain i c row command
    obtain ⟨less, rfl⟩ := List.getElem?_eq_some_iff.1 row
    exact Chain.isPlaced_row command (east _ (List.getElem_mem less)) (by omega)

theorem groups_stand_in_rows_to_void :
    perform (Listing.writeGroup ⟨⟨2147483600, true⟩, ⟨-3, false⟩, ⟨-2147483648, true⟩⟩
        { label := "g", onlyChain := true, chains := [
          { label := "none", onlyChain := true }, { label := "two", commands := [.raw "a", .raw "b"] },
          { label := "void" }, { label := "one", commands := [.raw "c"] }] }) [] =
      (.error (.error (.emptyChain "void")), [
        ⟨⟨⟨2147483600, true⟩, ⟨-3, false⟩, ⟨-2147483647, true⟩⟩, .impulse, .raw "a"⟩,
        ⟨⟨⟨2147483601, true⟩, ⟨-3, false⟩, ⟨-2147483647, true⟩⟩, .chain, .raw "b"⟩]) :=
  ((groups_stand_in_rows [] _ _ (by decide) (by decide)).2.1 _ _).2
    ⟨[_, _], _, [_], rfl, by decide, by decide, rfl, by decide⟩

/-- Chains with a command in each of them, all of whose units have a position, are placed exactly if the
last unit and the last chain are not at the greatest coordinate; otherwise placing them is a crash. -/
theorem placed_short_of_edge (listing : Listing) (p : Position) :
    (∀ chain : Chain, chain.commands ≠ [] → p.x.value.toInt + chain.length - 1 ≤ 2 ^ 31 - 1 →
      (p.x.value.toInt + chain.length - 1 ≠ 2 ^ 31 - 1 →
        perform (Listing.writeChain p chain) listing = (.ok (), listing ++ chain.row p)) ∧
      (p.x.value.toInt + chain.length - 1 = 2 ^ 31 - 1 →
        (perform (Listing.writeChain p chain) listing).1 = .error .crash)) ∧
    ∀ group : ChainGroup,
      (∀ chain ∈ group.chains,
        chain.commands ≠ [] ∧ p.x.value.toInt + chain.length - 1 ≤ 2 ^ 31 - 1) →
      p.z.value.toInt + group.chains.length - 1 ≤ 2 ^ 31 - 1 →
      ((∀ chain ∈ group.chains, p.x.value.toInt + chain.length - 1 ≠ 2 ^ 31 - 1) →
        p.z.value.toInt + group.chains.length - 1 ≠ 2 ^ 31 - 1 →
        perform (Listing.writeGroup p group) listing =
          (.ok (), listing ++ Listing.rows p group.chains)) ∧
      ((∃ chain ∈ group.chains, p.x.value.toInt + chain.length - 1 = 2 ^ 31 - 1) ∨
        p.z.value.toInt + group.chains.length - 1 = 2 ^ 31 - 1 →
        (perform (Listing.writeGroup p group) listing).1 = .error .crash) := by
  refine ⟨fun chain busy east => ⟨fun short => ?_, fun edge => ?_⟩,
    fun group fits south => ⟨fun short fewer => ?_, fun edge => ?_⟩⟩
  · exact Listing.perform_writeChain_row (fun isVoid => busy isVoid.1) (by omega) listing
  · rw [Listing.perform_writeChain_of_error (chain.place_eq_crash busy (by omega))]
  · refine Listing.perform_writeChains_rows (fun c mem isVoid => (fits c mem).1 isVoid.1)
      (fun c mem => ?_) (by omega) listing
    have east := (fits c mem).2
    have notLast := short c mem
    omega
  · refine Listing.perform_writeChains_eq_crash (fun c mem => (fits c mem).1) ?_ listing
    rcases edge with ⟨c, mem, last⟩ | last
    · exact .inl ⟨c, mem, by omega⟩
    · exact .inr (by omega)

theorem placed_short_of_edge_by_one :
    perform (Listing.writeChain (.absolute 2147483645 0 0) { commands := [.raw "a", .raw "b"] }) [] =
        (.ok (), [⟨.absolute 2147483645 0 0, .impulse, .raw "a"⟩,
          ⟨.absolute 2147483646 0 0, .chain, .raw "b"⟩]) ∧
      (perform (Listing.writeGroup (.absolute 0 0 2147483646)
        { label := "g", onlyChain := true, chains := [
          { commands := [.raw "a"] }, { commands := [.raw "b"] }] }) []).1 = .error .crash := by
  obtain ⟨chains, -⟩ := placed_short_of_edge [] (.absolute 2147483645 0 0)
  obtain ⟨-, groups⟩ := placed_short_of_edge [] (.absolute 0 0 2147483646)
  have first := (chains { commands := [.raw "a", .raw "b"] } (by decide) (by decide)).1 (by decide)
  exact ⟨first, (groups _ (by decide) (by decide)).2 (.inr (by decide))⟩

/-- A unit at the greatest coordinate has a position, and so has a chain there; placing them is a crash. -/
theorem crash_at_edge :
    (2147483647 : Int32).toInt + [Command.raw "a"].length - 1 ≤ 2 ^ 31 - 1 ∧
      perform (Listing.writeChain (.absolute 2147483647 0 0) { commands := [.raw "a"] }) [] =
        (.error .crash, []) ∧
      (perform (Listing.writeGroup (.absolute 0 0 2147483647)
        { label := "g", onlyChain := true, chains := [{ commands := [.raw "a"] }] }) []).1 =
          .error .crash := by
  decide

end BlockComputer
