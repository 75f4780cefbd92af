import BlockComputer.Proofs.Emission.Log
import BlockComputer.Proofs.Machine.Starting

/-!
Names in use.

A search for a free name counts up and ends before the count is greater than the number of names in use, at
the least number that makes a free name. So taking a fresh name never fails. Where all names are taken by
creating temporaries, print cards and named variables, and given back by releasing live variables, the names in
use are at any time those of the live variables, one each.
-/

namespace BlockComputer

namespace Session

/-- Counting from `n` on, in 32 bits, the search ends with this name, the first free one made from `base`. -/
inductive Search (s : Session) (base : String) : Nat → String → Prop
  | free {n : Nat} (unused : s!"{base}{n}" ∉ s.names) : Search s base n s!"{base}{n}"
  | taken {n : Nat} {name : String} (used : s!"{base}{n}" ∈ s.names) (room : n + 1 < 2 ^ 32)
      (later : Search s base (n + 1) name) : Search s base n name

section search

variable {s : Session} {base name other : String} {m n : Nat}

theorem Search.unique (search : s.Search base n name) (search' : s.Search base n other) : name = other := by
  induction search with
  | free unused =>
    cases search' with
    | free => rfl
    | taken used => exact absurd used unused
  | taken used _ _ ih =>
    cases search' with
    | free unused => exact absurd used unused
    | taken _ _ later => exact ih later

theorem Search.of_used (start : m ≤ n) (bound : n < 2 ^ 32) (used : ∀ k, m ≤ k → k < n → s!"{base}{k}" ∈ s.names)
    (unused : s!"{base}{n}" ∉ s.names) : s.Search base m s!"{base}{n}" := by
  -- by induction on the distance to the free number, with the start left open
  obtain ⟨d, rfl⟩ := Nat.exists_eq_add_of_le start
  induction d generalizing m with
  | zero => exact .free unused
  | succ d ih =>
    have shift : m + (d + 1) = m + 1 + d := by omega
    rw [shift] at bound used unused ⊢
    refine .taken (used m le_rfl (by omega)) (by omega) ?_
    exact ih (Nat.le_add_right _ _) bound (fun k low high => used k (by omega) high) unused

theorem freshName_of_free (free : base ∉ s.names) : s.freshName base = base := by
  have unused : s.isRegistered base = false := decide_eq_false free
  rw [freshName, unused, if_neg Bool.false_ne_true]

/-- A name in use is followed by the least number that makes it free, and there are no more numbers to try than
names in use. -/
theorem exists_freshName_eq (taken : base ∈ s.names) : ∃ n : Nat, n ≤ s.names.length ∧
    s.freshName base = s!"{base}{n}" ∧ ∀ k < n, s!"{base}{k}" ∈ s.names := by
  have used : s.isRegistered base = true := decide_eq_true taken
  have fresh := s.freshName_notMem base
  rw [freshName, used, if_pos rfl] at fresh ⊢
  simp only [List.find?_map] at fresh ⊢
  generalize found : List.find? _ _ = trial at fresh ⊢
  cases trial with
  | none =>
    exact absurd taken fresh
  | some n =>
    obtain ⟨-, inside, below⟩ := List.find?_range_eq_some.1 found
    refine ⟨n, Nat.le_of_lt_succ (List.mem_range.1 inside), rfl, fun k less => ?_⟩
    simpa using below k less

end search

/-- These variables are live: the names in use are theirs, one each. A scope is open. -/
structure Holds (s : Session) (live : List Variable) : Prop where
  opened : s.scopes ≠ []
  names : s.names = live.map Variable.name
  nodup : live.Nodup

end Session

open Machine

inductive Request where
  | temporary
  | printCard
  | named (name : String) (value : Int32)
  | release (v : Variable)

/-- Does what is asked for, where these variables are live, and returns those that are live behind it. A name in
use is refused, and only live variables are released. -/
def Request.serve (live : List Variable) : Request → EmitM (List Variable)
  | temporary => do
    let v ← Variable.temporary
    return live ++ [v]
  | printCard => do
    let name ← freshName "card_print"
    let _ : Card Id ← newPrintCard
    return live ++ [⟨name⟩]
  | named name value => do
    match ← attempt (Variable.create name value) with
    | .ok v => return live ++ [v]
    | .error (.duplicateName _) => return live
    | .error cause => reject cause
  | release v => do
    if v ∈ live then
      v.release
      return live.erase v
    else return live

theorem Variable.name_injective : Function.Injective Variable.name :=
  fun _ _ same => congrArg Variable.mk same

section perform

variable {s : Session} {live : List Variable} {name : String}

theorem perform_create_of_used (used : name ∈ s.names) (value : Int32) :
    perform (Variable.create name value) s = (.error (.error (.duplicateName name)), s) := by
  rw [perform_create, Session.isRegistered, decide_eq_true used, if_pos rfl]

theorem perform_create_of_free (opened : s.scopes ≠ []) (free : name ∉ s.names) (value : Int32) :
    perform (Variable.create name value) s =
      (.ok ⟨name⟩, (s.register [name]).append [.setScore ⟨name⟩ value]) := by
  rw [perform_create, Session.isRegistered, decide_eq_false free, if_neg Bool.false_ne_true, if_neg opened]

theorem perform_release (opened : s.scopes ≠ []) {v : Variable} (used : v.name ∈ s.names) :
    perform v.release s =
      (.ok (), ({ s with names := s.names.erase v.name } : Session).append [.resetScore v]) := by
  rw [Variable.release, perform_bind, perform_freeName, Session.isRegistered, decide_eq_true used, if_pos rfl]
  exact Emits.emit (.resetScore v) { s with names := s.names.erase v.name } opened

namespace Session.Holds

theorem taken (holds : s.Holds live) (free : name ∉ s.names) {t : Session} (opened : t.scopes ≠ [])
    (names : t.names = s.names ++ [name]) : t.Holds (live ++ [⟨name⟩]) where
  opened := opened
  names := by
    rw [names, List.map_append, ← holds.names]
    rfl
  nodup := nodup_append_singleton holds.nodup fun mem => free (holds.names ▸ List.mem_map_of_mem mem)

theorem created (holds : s.Holds live) (free : name ∉ s.names) (value : Int32) :
    ((s.register [name]).append [.setScore ⟨name⟩ value]).Holds (live ++ [⟨name⟩]) :=
  holds.taken free (Session.scopes_append_ne_nil _ _ holds.opened) (Session.names_append _ _)

theorem released (holds : s.Holds live) (v : Variable) :
    (({ s with names := s.names.erase v.name } : Session).append [.resetScore v]).Holds (live.erase v) where
  opened := Session.scopes_append_ne_nil _ _ holds.opened
  names := by
    rw [Session.names_append, List.map_erase Variable.name_injective, ← holds.names]
  nodup := holds.nodup.erase v

theorem serve (holds : s.Holds live) (request : Request) :
    ∃ live' t, perform (request.serve live) s = (.ok live', t) ∧ t.Holds live' := by
  cases request with
  | temporary =>
    have free := s.freshName_notMem "var_"
    have made : perform Variable.temporary s = _ := perform_create_of_free holds.opened free 0
    refine ⟨_, _, ?_, holds.created free 0⟩
    rw [Request.serve, perform_bind, made]
    rfl
  | printCard =>
    have free := s.freshName_notMem "card_print"
    have shown : (withDisplays s [⟨s.freshName "card_print"⟩]).Holds (live ++ [⟨s.freshName "card_print"⟩]) :=
      holds.taken free holds.opened rfl
    have fresh : perform (BlockComputer.freshName "card_print" : EmitM String) s =
      (.ok (s.freshName "card_print"), s) := rfl
    refine ⟨_, _, ?_, shown⟩
    rw [Request.serve, perform_bind, fresh]
    simp only
    rw [perform_bind, perform_newPrintCard]
    rfl
  | named name value =>
    by_cases used : name ∈ s.names
    · refine ⟨live, s, ?_, holds⟩
      rw [Request.serve, perform_bind, perform_attempt, perform_create_of_used used]
      rfl
    · refine ⟨_, _, ?_, holds.created used value⟩
      rw [Request.serve, perform_bind, perform_attempt, perform_create_of_free holds.opened used]
      rfl
  | release v =>
    by_cases mem : v ∈ live
    · have used : v.name ∈ s.names := holds.names ▸ List.mem_map_of_mem mem
      refine ⟨_, _, ?_, holds.released v⟩
      rw [Request.serve, if_pos mem, perform_bind, perform_release holds.opened used]
      rfl
    · refine ⟨live, s, ?_, holds⟩
      rw [Request.serve, if_neg mem, perform_pure]

theorem serves (holds : s.Holds live) (requests : List Request) :
    ∃ live' t, perform (requests.foldlM Request.serve live) s = (.ok live', t) ∧ t.Holds live' := by
  induction requests generalizing s live with
  | nil => exact ⟨live, s, rfl, holds⟩
  | cons request requests ih =>
    obtain ⟨live', t, served, still⟩ := holds.serve request
    obtain ⟨live'', u, others, last⟩ := ih still
    refine ⟨live'', u, ?_, last⟩
    rw [List.foldlM_cons, perform_bind, served]
    exact others

end Session.Holds

end perform

/-- With fewer than `2 ^ 32` names in use, a fresh name is in use nowhere and can be taken: it is the name itself
where that is free, and else the one that the search ends with, made with the least number that makes a free name.
A variable is created under no other name than a free one, and the card that is made shows a fresh one. So behind
any requests the live variables have different names, and these are the names in use. -/
theorem names_in_use_are_live :
    (∀ (s : Session) (base : String), s.names.length < 2 ^ 32 → let name := s.freshName base
      name ∉ s.names ∧ perform (registerName name) s = (.ok (), s.register [name]) ∧
      (base ∉ s.names → name = base) ∧
      (base ∈ s.names → (∀ other, s.Search base 0 other ↔ other = name) ∧
        ∃ n : Nat, name = s!"{base}{n}" ∧ ∀ k < n, s!"{base}{k}" ∈ s.names)) ∧
    (∀ (s : Session) (name : String) (value : Int32), name ∈ s.names →
      perform (Variable.create name value) s = (.error (.error (.duplicateName name)), s)) ∧
    (∀ s : Session, (perform newPrintCard s).1 = .ok (printCard ⟨s.freshName "card_print"⟩)) ∧
    ∀ (requests : List Request) (s : Session) (live : List Variable), s.Holds live →
      ∃ live' t, perform (requests.foldlM Request.serve live) s = (.ok live', t) ∧
        (live'.map Variable.name).Nodup ∧ ∀ name, name ∈ t.names ↔ name ∈ live'.map Variable.name := by
  refine ⟨fun s base few => ?_, fun s name value used => perform_create_of_used used value,
    fun s => by rw [perform_newPrintCard], fun requests s live holds => ?_⟩
  · have free := s.freshName_notMem base
    refine ⟨free, ?_, Session.freshName_of_free, fun taken => ?_⟩
    · rw [perform_registerName, Session.isRegistered, decide_eq_false free, if_neg Bool.false_ne_true]
    · obtain ⟨n, enough, same, used⟩ := Session.exists_freshName_eq taken
      have search : s.Search base 0 (s.freshName base) := by
        rw [same] at free ⊢
        exact .of_used (Nat.zero_le n) (by omega) (fun k _ less => used k less) free
      refine ⟨fun other => ⟨fun found => found.unique search, ?_⟩, n, same, used⟩
      rintro rfl
      exact search
  · obtain ⟨live', t, served, last⟩ := holds.serves requests
    refine ⟨live', t, served, last.nodup.map Variable.name_injective, fun name => ?_⟩
    rw [last.names]

/-- A gap among the numbers is filled, and requests for names that are in use or were given back are served. -/
theorem names_in_use_are_live_gap :
    let s : Session := { scopes := [[]], names := ["v", "v0", "v2"] }
    let live : List Variable := [⟨"v"⟩, ⟨"v0"⟩, ⟨"v2"⟩]
    let requests : List Request :=
      [.temporary, .temporary, .release ⟨"var_"⟩, .named "var_0" 7, .temporary, .printCard, .release ⟨"v0"⟩]
    s.names.length < 2 ^ 32 ∧ "v" ∈ s.names ∧ s.freshName "v" = "v1" ∧ s.Search "v" 0 "v1" ∧ s.Holds live ∧
      ∃ live' t, perform (requests.foldlM Request.serve live) s = (.ok live', t) ∧
        (live'.map Variable.name).Nodup ∧ ∀ name, name ∈ t.names ↔ name ∈ live'.map Variable.name := by
  intro s live requests
  obtain ⟨fresh, -, -, serves⟩ := names_in_use_are_live
  have few : s.names.length < 2 ^ 32 := by decide
  have taken : "v" ∈ s.names := by decide
  have holds : s.Holds live := ⟨by decide, rfl, by decide⟩
  obtain ⟨free, -, -, search⟩ := fresh s "v" few
  obtain ⟨ends, n, same, used⟩ := search taken
  have first : s.freshName "v" = "v1" := by
    match n with
    | 0 => exact absurd (same ▸ free) (by decide)
    | 1 => exact same
    | n + 2 => exact absurd (used 1 (by omega)) (by decide)
  exact ⟨few, taken, first, (ends "v1").2 first.symm, holds, serves requests s live holds⟩

end BlockComputer
