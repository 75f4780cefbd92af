import BlockComputer.Proofs.Emission.Relocation
import BlockComputer.Proofs.Relocation.Copying
import BlockComputer.Proofs.World.Running
import Mathlib.Data.Set.Basic

/-!
Relocation is transparent.

A chain with relocations does to scores, entities and barrels what it does when the chosen rows run
in place of the placeholders, and leaves every block outside the buffer as it found it. The proof
follows the run in place: the hidden region is the running chain with the buffer, in which the two
worlds may differ while a window is filled.
-/

namespace BlockComputer

variable {T : Territory} {start : Site} {first : UnitKind} {w u v : World}

/-- The world `u` of the relocating run and the world `v` of the run in place. -/
structure Follows (T : Territory) (u v : World) : Prop where
  agree : u.AgreeOutside T.hidden v
  left_bare : u.HasNoBarrel T.all
  right_bare : v.HasNoBarrel T.all

/-- Chain and rows are what they were in `u`. -/
structure Restored (T : Territory) (u u' : World) : Prop where
  chain : ∀ q ∈ T.chain, u'.blocks q = u.blocks q
  rows : ∀ q ∈ T.rows, u'.blocks q = u.blocks q

namespace Territory

theorem chain_subset : T.chain ⊆ T.all :=
  fun _ h => .inl (.inl h)

theorem rows_subset : T.rows ⊆ T.all :=
  fun _ h => .inr h

theorem notMem_hidden {p : Site} (h : p ∈ T.rows) : p ∉ T.hidden := by
  rintro (inChain | inBuffer)
  · exact T.chain_rows _ inChain h
  · exact T.rows_buffer _ h inBuffer

end Territory

theorem Restored.refl (u : World) : Restored T u u :=
  ⟨fun _ _ => rfl, fun _ _ => rfl⟩

theorem Restored.trans {u' u'' : World} (h : Restored T u u') (h' : Restored T u' u'') :
    Restored T u u'' :=
  ⟨fun q hq => (h'.chain q hq).trans (h.chain q hq), fun q hq => (h'.rows q hq).trans (h.rows q hq)⟩

namespace Follows

theorem twins (h : Follows T u v) : u.Twins T.hidden v :=
  ⟨h.agree, fun p hp => h.left_bare p (.inl hp), fun p hp => h.right_bare p (.inl hp)⟩

theorem step {c : Command} {origin : Point} (h : Follows T u v)
    (alone : c.LeavesAlone T.hidden origin) (keeps : c.Keeps T.rows origin) :
    Follows T (c.after origin u) (c.after origin v) ∧ Restored T u (c.after origin u) := by
  have twins := h.twins
  obtain ⟨left, -⟩ := alone u v twins
  obtain ⟨right, -⟩ := alone v u twins.symm
  have leftRows := keeps u fun p hp => h.left_bare p (.inr hp)
  have rightRows := keeps v fun p hp => h.right_bare p (.inr hp)
  refine ⟨⟨left.toAgreeOutside, h.left_bare.of_kept ?_, h.right_bare.of_kept ?_⟩,
    fun q hq => left.kept q (.inl hq), leftRows⟩
  · exact fun p hp => hp.elim (left.kept p) (leftRows p)
  · exact fun p hp => hp.elim (right.kept p) (rightRows p)

/-- Blocks of the chain and the buffer may be changed on the relocating side, to anything but
barrels. -/
theorem of_hidden {u' : World} (h : Follows T u v) (scores : u'.scores = u.scores)
    (entities : u'.entities = u.entities) (shown : u'.shown = u.shown)
    (blocks : ∀ p ∉ T.hidden, u'.blocks p = u.blocks p)
    (bare : ∀ p ∈ T.hidden, ∀ counts, u'.blocks p ≠ some (.barrel counts)) :
    Follows T u' v where
  agree := ⟨scores.trans h.agree.scores, entities.trans h.agree.entities,
    shown.trans h.agree.shown, fun p hp => (blocks p hp).trans (h.agree.blocks p hp)⟩
  left_bare p hp counts := by
    by_cases hidden : p ∈ T.hidden
    · exact bare p hidden counts
    · rw [blocks p hidden]
      exact h.left_bare p hp counts
  right_bare := h.right_bare

section splice

variable {source window : Site} {n bound : Nat}

theorem copyAhead (h : Follows T u v) (pos : 0 < n) (inRows : source.row n ⊆ T.rows)
    (inChain : window.row n ⊆ T.chain) (inBuffer : bufferRow n ⊆ T.buffer) :
    Follows T (u.copyAhead source window n) v := by
  have apart : ∀ i < n, window.shift i ∉ bufferRow n := fun i hi mem =>
    T.chain_buffer _ (inChain (Site.mem_row hi)) (inBuffer mem)
  have apart' : ∀ i < n, bufferStart.shift i ∉ window.row n := fun i hi mem =>
    T.chain_buffer _ (inChain mem) (inBuffer (Site.mem_row hi))
  have bareSource : ∀ i < n, ∀ counts, u.blocks (source.shift i) ≠ some (.barrel counts) :=
    fun i hi => h.left_bare _ (T.rows_subset (inRows (Site.mem_row hi)))
  refine h.of_hidden rfl rfl rfl (fun p hp => ?_) (fun p hp counts => ?_)
  · have notBuffer : p ∉ bufferRow n := fun mem => hp (.inr (inBuffer mem))
    have notWindow : p ∉ window.row n := fun mem => hp (.inl (inChain mem))
    exact World.copyAhead_of_notMem pos notBuffer notWindow
  · by_cases inWindow : p ∈ window.row n
    · obtain ⟨i, hi, rfl⟩ := inWindow
      rw [World.copyAhead_of_lt hi (apart i hi)]
      have bareWindow := h.left_bare _ (T.chain_subset (inChain (Site.mem_row hi))) counts
      have bare := bareSource i hi counts
      cases copied : u.blocks (source.shift i) with
      | none => simpa using bareWindow
      | some block => simpa [copied] using bare
    · by_cases buffered : p ∈ bufferRow n
      · obtain ⟨i, hi, rfl⟩ := buffered
        rw [World.copyAhead_buffer hi (apart' i hi)]
        exact bareSource i hi counts
      · rw [World.copyAhead_of_notMem pos buffered inWindow]
        exact h.left_bare p (.inl hp) counts

theorem neutralize (h : Follows T u v) (pos : 0 < n) (inChain : window.row n ⊆ T.chain) :
    Follows T (u.fill (window.shift (n - 1)) window (.unit .chain .placeholder)) v := by
  refine h.of_hidden rfl rfl rfl (fun p hp => ?_) (fun p hp counts => ?_)
  · exact World.fill_row_of_notMem pos (fun mem => hp (.inl (inChain mem))) _
  · by_cases inWindow : p ∈ window.row n
    · obtain ⟨i, hi, rfl⟩ := inWindow
      rw [World.fill_row_of_lt hi]
      simp
    · rw [World.fill_row_of_notMem pos inWindow]
      exact h.left_bare p (.inl hp) counts

end splice

end Follows

theorem World.HoldsUnits.copyAhead {source : Site} {n step : Nat} {cs : List Command}
    (window : u.HoldsUnits start first step (List.replicate n .placeholder)) (later : 0 < step)
    (row : u.HoldsRow source cs n) (apart : ∀ i < n, start.shift (step + i) ∉ bufferRow n) :
    (u.copyAhead source (start.shift step) n).HoldsUnits start first step
      (cs ++ List.replicate (n - cs.length) .placeholder) := by
  intro i hi
  have short : cs.length ≤ n := row.1
  have inWindow : i < n := by
    rw [List.length_append, List.length_replicate] at hi
    omega
  have kind : kindAt first (step + i) = .chain := if_neg (by omega)
  have here := apart i inWindow
  have block := window i (by simpa using inWindow)
  rw [← Site.shift_shift] at here block ⊢
  rw [World.copyAhead_of_lt inWindow here, row.2 i inWindow, block, kind]
  by_cases inRow : i < cs.length
  · simp [List.getElem_append_left inRow, inRow]
  · simp [List.getElem_append_right (Nat.le_of_not_lt inRow), Nat.le_of_not_lt inRow]

theorem Restored.splice {source : Site} {n step : Nat} {u' : World} (pos : 0 < n) (later : 0 < step)
    (window : u.HoldsUnits start first step (List.replicate n .placeholder))
    (inChain : (start.shift step).row n ⊆ T.chain) (inBuffer : bufferRow n ⊆ T.buffer)
    (ran : Restored T (u.copyAhead source (start.shift step) n) u') :
    Restored T u (u'.fill ((start.shift step).shift (n - 1)) (start.shift step)
      (.unit .chain .placeholder)) := by
  refine ⟨fun q hq => ?_, fun q hq => ?_⟩
  · by_cases inWindow : q ∈ (start.shift step).row n
    · obtain ⟨i, hi, rfl⟩ := inWindow
      have block := window i (by simpa using hi)
      rw [← Site.shift_shift] at block
      have kind : kindAt first (step + i) = .chain := if_neg (by omega)
      rw [World.fill_row_of_lt hi, block, List.getElem_replicate, kind]
    · have notBuffer : q ∉ bufferRow n := fun mem =>
        T.chain_buffer _ hq (inBuffer mem)
      rw [World.fill_row_of_notMem pos inWindow, ran.chain q hq,
        World.copyAhead_of_notMem pos notBuffer inWindow]
  · have notWindow : q ∉ (start.shift step).row n := fun mem =>
      T.chain_rows _ (inChain mem) hq
    have notBuffer : q ∉ bufferRow n := fun mem =>
      T.rows_buffer _ hq (inBuffer mem)
    rw [World.fill_row_of_notMem pos notWindow, ran.rows q hq,
      World.copyAhead_of_notMem pos notBuffer notWindow]

theorem runUnits_copyAhead {anchor : Entity} {q : Point} {n step : Nat} (fits : n ≤ greatestWindow)
    (pos : 0 < n) (stands : u.locate anchor = some q) {rest : List Command}
    (holds : u.HoldsUnits start first step
      (Item.copyToBuffer anchor n :: Item.copyFromBuffer n :: rest))
    (apart : start.shift (step + 1) ∉ bufferRow n) :
    World.runUnits start 2 step u = some (u.copyAhead q.site (start.shift (step + 2)) n) := by
  have copied := copyToBuffer_after fits stands (start.shift step).centre
  have second : (u.clone q.site (q.site.shift (n - 1)) bufferStart false).HoldsUnits start first
      (step + 1) [Item.copyFromBuffer n] := by
    have same := World.clone_row_of_notMem u (p := q.site) pos apart false
    intro i hi
    obtain rfl : i = 0 := by simpa using hi
    have block := holds.tail 0 (by simp)
    simpa [same] using block
  rw [World.runUnits, holds.commandAt?, Option.bind_some, copied, World.runUnits,
    second.commandAt?, Option.bind_some, World.runUnits, copyFromBuffer_after fits,
    Site.shift_shift]
  rfl

theorem runUnits_neutralize {n step : Nat} (fits : n ≤ greatestWindow) (pos : 0 < n)
    (holds : u.HoldsUnits start first (step + n) [Item.neutralize n]) :
    World.runUnits start 1 (step + n) u =
      some (u.fill ((start.shift step).shift (n - 1)) (start.shift step)
        (.unit .chain .placeholder)) := by
  rw [World.runUnits, holds.commandAt?, Option.bind_some, World.runUnits,
    ← Site.shift_shift, neutralize_after fits pos]

theorem runUnits_window {source : Site} {cs : List Command} {n step : Nat} {u' : World} (later : 0 < step)
    (window : u.HoldsUnits start first step (List.replicate n .placeholder))
    (row : u.HoldsRow source cs n) (inChain : (start.shift step).row n ⊆ T.chain)
    (apart : ∀ i < n, start.shift (step + i) ∉ bufferRow n)
    (ran : World.runUnits start cs.length step (u.copyAhead source (start.shift step) n) = some u')
    (restored : Restored T (u.copyAhead source (start.shift step) n) u') :
    World.runUnits start n step (u.copyAhead source (start.shift step) n) = some u' := by
  obtain ⟨-, idle⟩ := World.holdsUnits_append.1 (window.copyAhead later row apart)
  have idle' := idle.congr (fun i hi => by
    rw [List.length_replicate] at hi
    rw [Nat.add_assoc, ← Site.shift_shift]
    exact inChain (Site.mem_row (by omega))) restored.chain
  have count : n = cs.length + (n - cs.length) := (Nat.add_sub_cancel' row.1).symm
  conv_lhs => rw [count]
  rw [World.runUnits_add, ← count, ran, Option.bind_some, World.runUnits_placeholders idle']

/-- A relocation is followed if its row is: its units copy the row into the window, run it there, and leave
the chain as they found it. -/
theorem Follows.runSplice {bound n : Nat} (small : bound ≤ greatestWindow)
    (inBuffer : bufferRow bound ⊆ T.buffer) (pos : 0 < n) (le : n ≤ bound) {anchor : Entity} {q : Point}
    {cs : List Command} {v' : World} {step : Nat} (follows : Follows T u v)
    (holds : u.HoldsUnits start first step (Item.spliceCommands anchor n))
    (inChain : ∀ i < n + 3, start.shift (step + i) ∈ T.chain) (stands : v.locate anchor = some q)
    (row : v.HoldsRow q.site cs n) (inRows : q.site.row n ⊆ T.rows)
    (runRow : ∀ {u₂ : World}, Follows T u₂ v → u₂.HoldsUnits start first (step + 2) cs →
      ∃ u₃, World.runUnits start cs.length (step + 2) u₂ = some u₃ ∧ Follows T u₃ v' ∧
        Restored T u₂ u₃) :
    ∃ u', World.runUnits start (n + 3) step u = some u' ∧ Follows T u' v' ∧ Restored T u u' := by
  have windowInChain : (start.shift (step + 2)).row n ⊆ T.chain := by
    rintro q ⟨i, hi, rfl⟩
    rw [Site.shift_shift, Nat.add_assoc]
    exact inChain (2 + i) (by omega)
  have bufferSmall : bufferRow n ⊆ T.buffer := by
    rintro q ⟨i, hi, same⟩
    exact inBuffer ⟨i, hi.trans_le le, same⟩
  have chainApart : ∀ q ∈ T.chain, q ∉ bufferRow n := fun q hq mem =>
    T.chain_buffer _ hq (bufferSmall mem)
  have apart : ∀ i < n, start.shift (step + 2 + i) ∉ bufferRow n := fun i hi => by
    rw [← Site.shift_shift]
    exact chainApart _ (windowInChain (Site.mem_row hi))
  have behindInChain : start.shift (step + 2 + n) ∈ T.chain := by
    rw [Nat.add_assoc]
    exact inChain (2 + n) (by omega)
  have behindWindow : start.shift (step + 2 + n) ∉ (start.shift (step + 2)).row n := by
    rintro ⟨i, hi, same⟩
    rw [Site.shift_shift, Site.shift_inj] at same
    omega
  rw [Item.spliceCommands, List.append_assoc] at holds
  obtain ⟨copies, holds⟩ := World.holdsUnits_append.1 holds
  obtain ⟨placeholders, last⟩ := World.holdsUnits_append.1 holds
  simp only [List.length_cons, List.length_nil, List.length_replicate, Nat.zero_add, Nat.reduceAdd]
    at placeholders last
  have stands' : u.locate anchor = some q := (follows.agree.locate anchor).trans stands
  have row' : u.HoldsRow q.site cs n := by
    refine ⟨row.1, fun i hi => ?_⟩
    rw [follows.agree.blocks _ (T.notMem_hidden (inRows (Site.mem_row hi))), row.2 i hi]
  have opened := runUnits_copyAhead (le.trans small) pos stands' copies
    (chainApart _ (inChain 1 (by omega)))
  obtain ⟨rowHold, -⟩ := World.holdsUnits_append.1 (placeholders.copyAhead (by omega) row' apart)
  obtain ⟨u₃, ran, follows₃, restored⟩ :=
    runRow (follows.copyAhead pos inRows windowInChain bufferSmall) rowHold
  have ranWindow := runUnits_window (by omega) placeholders row' windowInChain apart ran restored
  have last₃ : u₃.HoldsUnits start first (step + 2 + n) [Item.neutralize n] := by
    intro i hi
    obtain rfl : i = 0 := by simpa using hi
    rw [Nat.add_zero, restored.chain _ behindInChain,
      World.copyAhead_of_notMem pos (chainApart _ behindInChain) behindWindow]
    exact last 0 (by simp)
  have closed := runUnits_neutralize (le.trans small) pos last₃
  refine ⟨_, ?_, follows₃.neutralize pos windowInChain,
    .splice pos (by omega) placeholders windowInChain bufferSmall restored⟩
  rw [show n + 3 = 2 + (n + 1) by omega, World.runUnits_add, opened, Option.bind_some,
    World.runUnits_add, ranWindow, Option.bind_some, closed]

/-- The run in place, step by step, is followed by the run that relocates. -/
theorem Follows.run {bound : Nat} (small : bound ≤ greatestWindow)
    (inBuffer : bufferRow bound ⊆ T.buffer) {p : Site} {items : List Item} {v' : World}
    (run : RunsInPlace T p items v v') {step : Nat} (here : p = start.shift step)
    (follows : Follows T u v) (holds : u.HoldsUnits start first step (units items))
    (inChain : ∀ i < (units items).length, start.shift (step + i) ∈ T.chain)
    (fits : ∀ item ∈ items, item.FitsIn bound) :
    ∃ u', World.runUnits start (units items).length step u = some u' ∧ Follows T u' v' ∧
      Restored T u u' := by
  -- the run in place is followed part by part; `Restored` hands the chain on to the parts behind
  induction run generalizing u step with
  | nil => exact ⟨u, rfl, follows, .refl u⟩
  | @unit p c others w w' alone keeps _ ih =>
    subst here
    have othersInChain : ∀ i < (units others).length, start.shift (step + 1 + i) ∈ T.chain := by
      intro i hi
      have inside := inChain (i + 1) (by simp [Item.commands]; omega)
      rwa [show step + (i + 1) = step + 1 + i by omega] at inside
    obtain ⟨next, kept⟩ := follows.step alone keeps
    have othersHold : (c.after (start.shift step).centre u).HoldsUnits start first (step + 1)
        (units others) := holds.tail.congr othersInChain kept.chain
    obtain ⟨u', ran, follows', restored⟩ := ih (Site.shift_shift ..) next othersHold othersInChain
      fun item mem => fits item (List.mem_cons_of_mem _ mem)
    refine ⟨u', ?_, follows', kept.trans restored⟩
    rw [units_cons, Item.commands, List.singleton_append] at holds ⊢
    rw [List.length_cons, World.runUnits, holds.commandAt?]
    exact ran
  | @splice p anchor window others row q w v w' stands rowHolds inRows _ _ ihRow ihOthers =>
    subst here
    obtain ⟨n, pos⟩ := window
    have le : n ≤ bound := fits (.splice anchor ⟨n, pos⟩) List.mem_cons_self
    have short : (units row).length ≤ n := rowHolds.1
    have length : (units (.splice anchor ⟨n, pos⟩ :: others)).length = n + 3 + (units others).length := by
      simp [Item.commands]
    rw [length] at inChain ⊢
    have othersInChain : ∀ i < (units others).length,
        start.shift (step + (n + 3) + i) ∈ T.chain := by
      intro i hi
      have inside := inChain (n + 3 + i) (by omega)
      rwa [← Nat.add_assoc] at inside
    have rowInChain : ∀ i < (units row).length, start.shift (step + 2 + i) ∈ T.chain := by
      intro i hi
      have inside := inChain (2 + i) (by omega)
      rwa [← Nat.add_assoc] at inside
    rw [units_cons, Item.commands] at holds
    obtain ⟨spliceHold, othersHold⟩ := World.holdsUnits_append.1 holds
    rw [Item.spliceCommands_length] at othersHold
    obtain ⟨u₂, ranSplice, follows₂, restored⟩ := follows.runSplice small inBuffer pos le spliceHold
      (fun i hi => inChain i (by omega)) stands rowHolds inRows fun follows₁ rowHold =>
        ihRow (Site.shift_shift ..) follows₁ rowHold rowInChain
          (Item.fitsIn_of_length_le (short.trans le))
    obtain ⟨u', ranOthers, follows', restored'⟩ := ihOthers (Site.shift_shift ..) follows₂
      (othersHold.congr othersInChain restored.chain) othersInChain
      fun item mem => fits item (List.mem_cons_of_mem _ mem)
    refine ⟨u', ?_, follows', restored.trans restored'⟩
    rw [World.runUnits_add, ranSplice, Option.bind_some]
    exact ranOthers

/-- The chain stands alone in its territory, with nothing behind it that would run. -/
structure Territory.Hosts (T : Territory) (w : World) (start : Site) (first : UnitKind)
    (chain : List Command) (bound : Nat) : Prop where
  chain_eq : T.chain = start.row (chain.length + 1)
  buffer_eq : T.buffer = bufferRow bound
  holds : w.HoldsUnits start first 0 chain
  ends : w.commandAt? start (start.shift chain.length) = none
  bare : w.HasNoBarrel T.all

/-- Relocation is transparent. Steps whose windows reserve at most `bound` units are emitted without
fail, and the chain ends like its run in place: only the buffer tells the two worlds apart, and chain
and rows are as they were. -/
theorem relocation_transparent {pieces : List Piece} {bound : Nat} (small : bound ≤ greatestWindow)
    (fits : ∀ piece ∈ pieces, piece.FitsIn bound) (s : Session) :
    ∃ chain, perform (capture (pieces.forM Piece.emit)) s = (.ok chain, s) ∧
      chain = units (pieces.flatMap Piece.items) ∧
      ∀ (T : Territory) (w v : World) (start : Site) (first : UnitKind) (limit : Nat),
        T.Hosts w start first chain bound →
        RunsInPlace T start (pieces.flatMap Piece.items) w v → chain.length < limit →
        ∃ w', World.runChain limit start w = some w' ∧
          w'.scores = v.scores ∧ w'.entities = v.entities ∧ w'.shown = v.shown ∧
          (∀ q ∉ T.buffer, w'.blocks q = v.blocks q) ∧
          ∀ q ∈ T.chain ∪ T.rows, w'.blocks q = w.blocks q := by
  have windows : ∀ item ∈ pieces.flatMap Piece.items, item.FitsIn bound := by
    intro item mem
    obtain ⟨piece, inPieces, inItems⟩ := List.mem_flatMap.1 mem
    exact fits piece inPieces item inItems
  have emitted : Emits (pieces.forM Piece.emit) () (units (pieces.flatMap Piece.items)) [] :=
    .pieces fun piece mem => (fits piece mem).mono small
  refine ⟨_, emitted.perform_capture s, rfl, fun T w v start first limit hosts inPlace enough => ?_⟩
  have inChain : ∀ i ≤ (units (pieces.flatMap Piece.items)).length,
      start.shift (0 + i) ∈ T.chain := by
    intro i hi
    rw [hosts.chain_eq, Nat.zero_add]
    exact Site.mem_row (Nat.lt_succ_of_le hi)
  have follows : Follows T w w := ⟨.refl _ w, hosts.bare, hosts.bare⟩
  obtain ⟨w', ran, follows', restored⟩ := follows.run small hosts.buffer_eq.ge inPlace
    (Site.shift_zero start).symm hosts.holds (fun i hi => inChain i hi.le) windows
  have behind := inChain _ le_rfl
  have ends : w'.commandAt? start (start.shift (0 + (units (pieces.flatMap Piece.items)).length)) =
      none := by
    rw [World.commandAt?, restored.chain _ behind, Nat.zero_add]
    exact hosts.ends
  have complete := World.runFrom_of_runUnits ran ends enough
  rw [Site.shift_zero] at complete
  have kept := inPlace.kept hosts.bare
  refine ⟨w', complete, follows'.agree.scores, follows'.agree.entities, follows'.agree.shown,
    fun q hq => ?_, fun q hq => hq.elim (restored.chain q) (restored.rows q)⟩
  by_cases inChain : q ∈ T.chain
  · rw [restored.chain q inChain, kept q (T.chain_subset inChain)]
  · exact follows'.agree.blocks q (by rintro (h | h) <;> contradiction)

namespace Nested

/-! A row that holds a relocation itself, in windows that both are longer than their rows. -/

def total : Variable := ⟨"total"⟩

def outer : Entity := { kind := Entity.marker, tag := "outer" }

def inner : Entity := { kind := Entity.marker, tag := "inner" }

def innerRow : List Item := [.unit (.operateScore total .add total)]

def outerRow : List Item := [.unit (.addScore total 10), .splice inner ⟨2, by decide⟩]

def pieces : List Piece :=
  [.command (.setScore total 3), .spliceFrom outer ⟨8, by decide⟩, .command (.addScore total 1)]

def rowAt : Int → List Command
  | 0 => units (pieces.flatMap Piece.items)
  | 2 => units outerRow
  | 4 => units innerRow
  | _ => []

def world : World where
  blocks p := if p.y = 0 ∧ 0 ≤ p.x then (rowAt p.z)[p.x.toNat]?.map (Block.unit .chain) else none
  entities := [⟨"outer", ⟨0, 0, 2⟩⟩, ⟨"inner", ⟨0, 0, 4⟩⟩]

def territory : Territory where
  chain := Site.row ⟨0, 0, 0⟩ 14
  rows := Site.row ⟨0, 0, 2⟩ 8 ∪ Site.row ⟨0, 0, 4⟩ 2
  buffer := bufferRow 8
  chain_rows := by
    rintro _ ⟨i, -, rfl⟩ (⟨j, -, same⟩ | ⟨j, -, same⟩) <;> simp [Site.shift] at same
  chain_buffer := by
    rintro _ ⟨i, -, rfl⟩ ⟨j, -, same⟩
    simp [Site.shift, bufferStart_eq] at same
  rows_buffer := by
    rintro _ (⟨i, -, rfl⟩ | ⟨i, -, rfl⟩) ⟨j, -, same⟩ <;> simp [Site.shift, bufferStart_eq] at same

theorem world_blocks (z : Int) (i : Nat) :
    world.blocks (Site.shift ⟨0, 0, z⟩ i) = (rowAt z)[i]?.map (Block.unit .chain) := by
  simp [world, Site.shift]

theorem hosts : territory.Hosts world ⟨0, 0, 0⟩ .chain (units (pieces.flatMap Piece.items)) 8 where
  chain_eq := rfl
  buffer_eq := rfl
  holds i hi := by
    rw [Nat.zero_add, world_blocks, rowAt, List.getElem?_eq_getElem hi, kindAt, ite_self]
    rfl
  ends := by
    rw [World.commandAt?, world_blocks, rowAt, List.getElem?_eq_none (Nat.le_refl _)]
    rfl
  bare p _ counts := by
    simp only [world]
    split
    · simp
    · simp

theorem runsInPlace : RunsInPlace territory ⟨0, 0, 0⟩ (pieces.flatMap Piece.items) world
    ((((world.setScore total 3).setScore total 13).setScore total 26).setScore total 27) := by
  have outerHolds (w : World) (same : w.blocks = world.blocks) :
      w.HoldsRow ⟨0, 0, 2⟩ (units outerRow) 8 :=
    ⟨by decide, fun i _ => by rw [same, world_blocks, rowAt]⟩
  have innerHolds (w : World) (same : w.blocks = world.blocks) :
      w.HoldsRow ⟨0, 0, 4⟩ (units innerRow) 2 :=
    ⟨by decide, fun i _ => by rw [same, world_blocks, rowAt]⟩
  refine .still rfl ?_
  refine .splice (q := ⟨0, 0, 2⟩) (by rfl) (outerHolds _ rfl) (fun q hq => .inl hq) ?_
    (.still rfl .nil)
  refine .still rfl ?_
  refine .splice (q := ⟨0, 0, 4⟩) (by rfl) (innerHolds _ rfl) (fun q hq => .inr hq) ?_ .nil
  exact .still rfl .nil

/-- Three, and ten, doubled, and one. -/
theorem relocation_transparent_nested :
    (8 ≤ greatestWindow ∧ (∀ piece ∈ pieces, piece.FitsIn 8)) ∧
      ∃ w', World.runChain 100 ⟨0, 0, 0⟩ world = some w' ∧ w'.score total = 27 ∧
        ∀ q ∈ territory.chain ∪ territory.rows, w'.blocks q = world.blocks q := by
  have small : 8 ≤ greatestWindow := by decide
  have fits : ∀ piece ∈ pieces, piece.FitsIn 8 := by
    intro piece mem item inItems
    simp only [pieces, List.mem_cons, List.not_mem_nil, or_false] at mem
    rcases mem with rfl | rfl | rfl <;> cases inItems with
    | head => simp [Item.FitsIn]
    | tail _ none => cases none
  obtain ⟨chain, -, rfl, runs⟩ := relocation_transparent small fits {}
  obtain ⟨w', ran, scores, -, -, -, kept⟩ :=
    runs territory world _ ⟨0, 0, 0⟩ .chain 100 hosts runsInPlace (by decide)
  refine ⟨⟨small, fits⟩, w', ran, ?_, kept⟩
  rw [World.score, scores]
  rfl

end Nested

end BlockComputer
