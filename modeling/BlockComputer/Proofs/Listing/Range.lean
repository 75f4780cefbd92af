import BlockComputer.Proofs.Emission.Failing
import BlockComputer.Proofs.Listing.Rows

/-!
When placing fails.

A listing of groups at the corners of their floors whose chains end below the greatest coordinate is always
made. What can go wrong else is a chain with a start block and no command.
-/

namespace BlockComputer

theorem Except.bind_eq_error {ε α β : Type} {x : Except ε α} {f : α → Except ε β} {e : ε}
    (h : (x >>= f) = .error e) : x = .error e ∨ ∃ a, x = .ok a ∧ f a = .error e := by
  cases x with
  | error cause =>
    cases h
    exact .inl rfl
  | ok a => exact .inr ⟨a, rfl, h⟩

theorem narrow_eq_error {n : Int} {e : Failure} (h : narrow n = .error e) : e = .crash := by
  unfold narrow at h
  split at h
  · cases h
  · cases h
    rfl

theorem Axis.add_eq_error {a b : Axis} {e : Failure} (h : a.add b = .error e) : e = .crash := by
  rcases Except.bind_eq_error h with sum | ⟨_, _, impossible⟩
  · exact narrow_eq_error sum
  · cases impossible

theorem Position.add_eq_error {p q : Position} {e : Failure} (h : p.add q = .error e) :
    e = .crash := by
  rcases Except.bind_eq_error h with x | ⟨_, _, h⟩
  · exact Axis.add_eq_error x
  rcases Except.bind_eq_error h with y | ⟨_, _, h⟩
  · exact Axis.add_eq_error y
  rcases Except.bind_eq_error h with z | ⟨_, _, impossible⟩
  · exact Axis.add_eq_error z
  · cases impossible

theorem placeUnits_eq_error {kind : UnitKind} {position : Position} {cs : List Command} {e : Failure}
    (h : placeUnits kind position cs = .error e) : e = .crash := by
  induction cs generalizing position with
  | nil => cases h
  | cons c cs ih =>
    rcases Except.bind_eq_error h with moved | ⟨next, _, h⟩
    · exact Position.add_eq_error moved
    rcases Except.bind_eq_error h with others | ⟨_, _, impossible⟩
    · exact ih others
    · cases impossible

def Failure.IsPlacing (e : Failure) : Prop :=
  e = .crash ∨ ∃ label, e = .error (.emptyChain label)

theorem Failure.IsPlacing.not_isOverflow {e : Failure} (h : e.IsPlacing) : ¬ e.IsOverflow := by
  rintro ⟨_, _, _, rfl⟩
  rcases h with same | ⟨_, same⟩ <;> cases same

theorem Chain.isPlacing_of_place {chain : Chain} {position : Position} {e : Failure}
    (h : chain.place position = .error e) : e.IsPlacing := by
  unfold place at h
  split at h
  · split at h
    · cases h
    · cases h
      exact .inr ⟨_, rfl⟩
  · rcases Except.bind_eq_error h with first | ⟨_, _, h⟩
    · exact .inl (placeUnits_eq_error first)
    rcases Except.bind_eq_error h with others | ⟨_, _, impossible⟩
    · exact .inl (placeUnits_eq_error others)
    · cases impossible

namespace Listing

theorem failsWith_writeChains (position : Position) (chains : List Chain) :
    FailsWith (writeChains position chains) Failure.IsPlacing := by
  induction chains generalizing position with
  | nil => exact .pure ()
  | cons chain chains ih =>
    have placed : FailsWith (writeChain position chain) Failure.IsPlacing :=
      .bind (.lift fun _ failed => Chain.isPlacing_of_place failed) fun _ => .modify _
    refine .bind placed fun _ => .bind (.lift fun _ failed => .inl ?_) ih
    exact Position.add_eq_error failed

theorem isPlacing_of_ofGroups {groups : List (Position × ChainGroup)} {e : Failure}
    (h : ofGroups groups = .error e) : e.IsPlacing := by
  have written : FailsWith (groups.forM fun g => writeGroup g.1 g.2 : PlaceM Unit)
      Failure.IsPlacing := by
    clear h
    induction groups with
    | nil => exact .pure ()
    | cons g groups ih => exact .bind (failsWith_writeChains _ _) fun _ => ih
  unfold ofGroups at h
  cases made : (groups.forM fun g => writeGroup g.1 g.2 : PlaceM Unit).run.run [] with
  | mk outcome listing =>
    rw [made] at h
    cases outcome with
    | ok _ => cases h
    | error cause =>
      cases h
      exact written _ _ _ made

end Listing

theorem Axis.plus_corner (n : Nat) : (⟨0, false⟩ : Axis).plus n = ⟨Int32.ofNat n, false⟩ := by
  rw [plus, Int32.toInt_zero, Int.zero_add, Int32.ofInt_eq_ofNat]

/-- The units of a chain whose row starts at these coordinates. -/
def Chain.placed (chain : Chain) (y z : Int32) : Listing :=
  chain.commands.mapIdx fun i c =>
    { position := .absolute (Int32.ofNat i) y z, kind := kindAt chain.firstKind i, command := c }

/-- The chain ends before the greatest coordinate, and if it has a start block it has a command. -/
structure Chain.Placeable (chain : Chain) : Prop where
  short : chain.length < 2 ^ 31
  starts : chain.commands = [] → chain.onlyChain = true

theorem Chain.Placeable.solid {chain : Chain} (h : chain.Placeable) : ¬ chain.IsVoid := by
  rintro ⟨empty, starts⟩
  rw [h.starts empty] at starts
  cases starts

theorem Chain.row_corner (chain : Chain) (y z : Int32) : chain.row (.absolute 0 y z) = chain.placed y z := by
  simp only [row, placed, Position.eastward, Position.absolute, Axis.plus_corner]

namespace Listing

def placedChains (y : Int32) (z : Nat) (chains : List Chain) : Listing :=
  (chains.mapIdx fun r chain => chain.placed y (Int32.ofNat (z + r))).flatten

theorem rows_corner (y : Int32) (chains : List Chain) :
    rows (.absolute 0 y 0) chains = placedChains y 0 chains := by
  have start (k : Nat) : (Position.absolute 0 y 0).southward k = .absolute 0 y (Int32.ofNat (0 + k)) := by
    rw [Position.southward, Position.absolute, Axis.plus_corner, Nat.zero_add]
    rfl
  simp only [rows, placedChains, start, Chain.row_corner]

/-- A group at the west and north end of its floor, all of whose chains can be placed. -/
structure PlaceableGroup (g : Position × ChainGroup) : Prop where
  corner : ∃ y, g.1 = .absolute 0 y 0
  chains : ∀ chain ∈ g.2.chains, chain.Placeable
  few : g.2.chains.length < 2 ^ 31

theorem ofGroups_eq_ok {groups : List (Position × ChainGroup)} (h : ∀ g ∈ groups, PlaceableGroup g) :
    ofGroups groups = .ok (groups.flatMap fun g => placedChains g.1.y.value 0 g.2.chains) := by
  have written (before : Listing) :
      perform (groups.forM fun g => writeGroup g.1 g.2 : PlaceM Unit) before =
        (.ok (), before ++ groups.flatMap fun g => placedChains g.1.y.value 0 g.2.chains) := by
    induction groups generalizing before with
    | nil => exact congrArg (Prod.mk _) (List.append_nil before).symm
    | cons g groups ih =>
      obtain ⟨first, others⟩ := List.forall_mem_cons.1 h
      obtain ⟨y, corner⟩ := first.corner
      have east (c : Chain) (mem : c ∈ g.2.chains) : (0 : Int) + c.length < 2 ^ 31 := by
        have short := (first.chains c mem).short
        omega
      have south : (0 : Int) + g.2.chains.length < 2 ^ 31 := by
        have few := first.few
        omega
      have here := perform_writeChains_rows (p := .absolute 0 y 0)
        (fun c mem => (first.chains c mem).solid) east south before
      rw [rows_corner] at here
      change perform (writeGroup g.1 g.2 >>= fun _ => groups.forM fun g => writeGroup g.1 g.2) before = _
      rw [perform_bind, writeGroup, corner, here]
      simp only
      rw [ih others, List.flatMap_cons, List.append_assoc, corner]
      rfl
  have made := written []
  unfold perform at made
  rw [ofGroups, made]
  rfl

end Listing

end BlockComputer
