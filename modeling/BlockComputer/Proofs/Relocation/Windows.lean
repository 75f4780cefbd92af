import BlockComputer.Relocation

/-!
Which window chains need.

The window of a group is as long as its longest chain: every chain fits, and in a shorter window one does
not. Only chains that are all empty have no window.
-/

namespace BlockComputer

/-- The window is as long as the longest of the chains. -/
def Window.Covers (w : Window) (chains : List Chain) : Prop :=
  longest chains = w.length

namespace Window

theorem le_foldl_max (lengths : List Nat) (n : Nat) :
    n ≤ lengths.foldl max n ∧ ∀ m ∈ lengths, m ≤ lengths.foldl max n := by
  induction lengths generalizing n with
  | nil => exact ⟨Nat.le_refl n, fun _ mem => nomatch mem⟩
  | cons k lengths ih =>
    obtain ⟨start, others⟩ := ih (max n k)
    refine ⟨Nat.le_trans (Nat.le_max_left n k) start, fun m mem => ?_⟩
    cases mem with
    | head => exact Nat.le_trans (Nat.le_max_right n k) start
    | tail _ later => exact others m later

theorem foldl_max_le {lengths : List Nat} {n bound : Nat} (start : n ≤ bound)
    (others : ∀ m ∈ lengths, m ≤ bound) : lengths.foldl max n ≤ bound := by
  induction lengths generalizing n with
  | nil => exact start
  | cons k lengths ih =>
    exact ih (Nat.max_le.2 ⟨start, others k List.mem_cons_self⟩) fun m mem =>
      others m (List.mem_cons_of_mem k mem)

theorem Covers.length_le {w : Window} {chains : List Chain} (covers : w.Covers chains)
    {chain : Chain} (mem : chain ∈ chains) : chain.length ≤ w.length :=
  covers ▸ (le_foldl_max _ 0).2 _ (List.mem_map_of_mem mem)

theorem Covers.le_of_forall {w : Window} {chains : List Chain} (covers : w.Covers chains)
    {bound : Nat} (short : ∀ chain ∈ chains, chain.length ≤ bound) : w.length ≤ bound := by
  rw [← covers]
  exact foldl_max_le (Nat.zero_le bound) (List.forall_mem_map.2 short)

theorem covers_of_covering {w : Window} {label : String} {chains : List Chain}
    (h : covering label chains = .ok w) : w.Covers chains := by
  unfold covering at h
  split at h
  · cases h
    rfl
  · cases h

theorem longest_eq_zero_iff {chains : List Chain} :
    longest chains = 0 ↔ ∀ chain ∈ chains, chain.commands = [] := by
  constructor
  · intro zero chain mem
    have covered : chain.length ≤ longest chains :=
      (le_foldl_max _ 0).2 _ (List.mem_map_of_mem mem)
    exact List.length_eq_zero_iff.1 (Nat.le_zero.1 (zero ▸ covered))
  · intro empty
    refine Nat.le_zero.1 (foldl_max_le (Nat.le_refl 0) (List.forall_mem_map.2 fun chain mem => ?_))
    rw [Chain.length, empty chain mem]
    exact Nat.le_refl 0

theorem exists_length_eq_foldl_max (lengths : List Nat) (n : Nat) :
    lengths.foldl max n = n ∨ lengths.foldl max n ∈ lengths := by
  induction lengths generalizing n with
  | nil => exact .inl rfl
  | cons k lengths ih =>
    rcases ih (max n k) with start | later
    · rw [List.foldl_cons, start]
      rcases Nat.le_total n k with le | ge
      · rw [Nat.max_eq_right le]
        exact .inr List.mem_cons_self
      · exact .inl (Nat.max_eq_left ge)
    · exact .inr (List.mem_cons_of_mem k later)

theorem Covers.exists_length_eq {w : Window} {chains : List Chain} (covers : w.Covers chains) :
    ∃ chain ∈ chains, chain.length = w.length := by
  rcases exists_length_eq_foldl_max (chains.map Chain.length) 0 with none | attained
  · exact absurd (covers.symm.trans none) (Nat.ne_of_gt w.length_pos)
  · obtain ⟨chain, mem, length⟩ := List.mem_map.1 attained
    exact ⟨chain, mem, length.trans covers⟩

theorem covering_eq_error (label : String) {chains : List Chain}
    (empty : ∀ chain ∈ chains, chain.commands = []) :
    covering label chains = .error (.error (.emptyWindow label)) :=
  dif_neg (Nat.not_lt.2 (Nat.le_of_eq (longest_eq_zero_iff.2 empty)))

theorem covering_eq_ok (label : String) {chains : List Chain}
    (used : ¬ ∀ chain ∈ chains, chain.commands = []) :
    ∃ w, covering label chains = .ok w ∧ w.Covers chains := by
  have pos : 0 < longest chains :=
    Nat.pos_of_ne_zero fun zero => used (longest_eq_zero_iff.1 zero)
  exact ⟨⟨longest chains, pos⟩, dif_pos pos, rfl⟩

theorem verify_eq_ok {w : Window} {chain : Chain} (fits : chain.length ≤ w.length) :
    w.verify chain = .ok () :=
  if_neg (Nat.not_lt.2 fits)

theorem forM_verify_cons (w : Window) (chain : Chain) (chains : List Chain) :
    (chain :: chains).forM w.verify = w.verify chain >>= fun _ => chains.forM w.verify :=
  rfl

theorem verifyGroup_eq_ok {w : Window} {g : ChainGroup}
    (fit : ∀ chain ∈ g.chains, chain.length ≤ w.length) : w.verifyGroup g = .ok () := by
  unfold verifyGroup
  generalize g.chains = chains at fit
  induction chains with
  | nil => rfl
  | cons chain chains ih =>
    rw [forM_verify_cons, verify_eq_ok (fit chain List.mem_cons_self)]
    exact ih fun other mem => fit other (List.mem_cons_of_mem chain mem)

def FirstOverflow (w : Window) (chains : List Chain) (chain : Chain) : Prop :=
  ∃ before after, chains = before ++ chain :: after ∧
    (∀ other ∈ before, other.length ≤ w.length) ∧ w.length < chain.length

/-- A window that some chain does not fit in is refused by the name of the first such chain. -/
theorem verifyGroup_eq_error {w : Window} {g : ChainGroup}
    (overflows : ¬ ∀ chain ∈ g.chains, chain.length ≤ w.length) :
    ∃ chain, w.FirstOverflow g.chains chain ∧
      w.verifyGroup g = .error (.error (.windowOverflow chain.label chain.length w.length)) := by
  unfold verifyGroup
  generalize g.chains = chains at overflows
  induction chains with
  | nil => exact absurd (fun _ mem => nomatch mem) overflows
  | cons chain chains ih =>
    by_cases fits : chain.length ≤ w.length
    · have later : ¬ ∀ other ∈ chains, other.length ≤ w.length := fun others =>
        overflows (List.forall_mem_cons.2 ⟨fits, others⟩)
      obtain ⟨named, ⟨before, after, split, short, long⟩, refused⟩ := ih later
      refine ⟨named, ⟨chain :: before, after, by rw [split, List.cons_append], ?_, long⟩, ?_⟩
      · exact List.forall_mem_cons.2 ⟨fits, short⟩
      · rw [forM_verify_cons, verify_eq_ok fits]
        exact refused
    · have long := Nat.lt_of_not_le fits
      refine ⟨chain, ⟨[], chains, rfl, (fun _ mem => nomatch mem), long⟩, ?_⟩
      rw [forM_verify_cons, verify, if_pos long]
      rfl

theorem verifyGroup_eq_ok_iff {w : Window} {g : ChainGroup} :
    w.verifyGroup g = .ok () ↔ ∀ chain ∈ g.chains, chain.length ≤ w.length := by
  refine ⟨fun accepted => ?_, verifyGroup_eq_ok⟩
  refine Classical.byContradiction fun overflows => ?_
  obtain ⟨chain, -, refused⟩ := verifyGroup_eq_error overflows
  cases accepted.symm.trans refused

/-- The window is the least one that accepts a group of these chains, and a smaller one refuses the group by
the name of the first chain that does not fit. -/
structure IsLeast (w : Window) (chains : List Chain) : Prop where
  accepts : ∀ g : ChainGroup, g.chains = chains → w.verifyGroup g = .ok ()
  least : ∀ (v : Window) (g : ChainGroup), g.chains = chains → v.verifyGroup g = .ok () →
    w.length ≤ v.length
  refuses : ∀ (v : Window) (g : ChainGroup), g.chains = chains → v.length < w.length →
    ∃ chain, v.FirstOverflow chains chain ∧
      v.verifyGroup g = .error (.error (.windowOverflow chain.label chain.length v.length))

theorem Covers.isLeast {w : Window} {chains : List Chain} (covers : w.Covers chains) :
    w.IsLeast chains where
  accepts g same := by
    subst same
    exact verifyGroup_eq_ok fun _ mem => covers.length_le mem
  least v g same accepted := by
    subst same
    exact covers.le_of_forall (verifyGroup_eq_ok_iff.1 accepted)
  refuses v g same short := by
    subst same
    obtain ⟨chain, mem, length⟩ := covers.exists_length_eq
    exact verifyGroup_eq_error fun fit => absurd (length ▸ fit chain mem) (Nat.not_le.2 short)

theorem covering_fails_iff (label : String) (chains : List Chain) :
    (∃ e, covering label chains = .error e) ↔ ∀ chain ∈ chains, chain.commands = [] := by
  refine ⟨fun ⟨e, failed⟩ => ?_, fun empty => ⟨_, covering_eq_error label empty⟩⟩
  refine Classical.byContradiction fun used => ?_
  obtain ⟨w, covered, -⟩ := covering_eq_ok label used
  cases covered.symm.trans failed

theorem ofGroup_eq (g : ChainGroup) : ofGroup g = covering g.label g.chains := by
  unfold ofGroup
  cases covered : covering g.label g.chains with
  | error e => rfl
  | ok w =>
    have fit := verifyGroup_eq_ok (g := g) fun _ mem => (covers_of_covering covered).length_le mem
    simp only [fit, bind, Except.bind, pure, Except.pure]

theorem covers_of_ofGroup {w : Window} {g : ChainGroup} (h : ofGroup g = .ok w) :
    w.Covers g.chains :=
  covers_of_covering ((ofGroup_eq g).symm.trans h)

end Window

end BlockComputer
