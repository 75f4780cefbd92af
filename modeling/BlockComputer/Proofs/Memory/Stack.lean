import BlockComputer.Proofs.Memory.Array
import Mathlib.Data.List.Induction

/-!
The stack.

A push writes at the pointer and moves it down, a pop moves it up and reads there. The pointer is a score
that wraps at 32 bits, and a barrel is found by its twelve lowest bits; so up to 4096 pushes in a row write
to different barrels, wherever the pointer starts, and pops find what was pushed in reverse order.
-/

namespace BlockComputer.Machine

theorem Word.val_ofScore_sub (x : Int32) (n : Nat) :
    ((ofScore (x - Int32.ofNat n)).val : Int) = (x.toInt - n) % 4096 := by
  have wrapped (k : Int) : k.bmod (2 ^ 32) % 4096 = k % 4096 := by
    rw [← Int.emod_emod_of_dvd (k.bmod (2 ^ 32)) (show (4096 : Int) ∣ ((2 ^ 32 : Nat) : Int) by decide),
      Int.bmod_emod, Int.emod_emod_of_dvd _ (by decide)]
  have number : (Int32.ofNat n).toInt = (n : Int).bmod (2 ^ 32) := by
    rw [← Int32.ofInt_eq_ofNat, Int32.toInt_ofInt]
    rfl
  rw [val_ofScore, Int32.toInt_sub, wrapped, Int.sub_emod, number, wrapped, ← Int.sub_emod]

theorem Word.ofScore_sub_ne (x : Int32) {m n : Nat} (less : m < n) (few : n - m < 4096) :
    ofScore (x - Int32.ofNat m) ≠ ofScore (x - Int32.ofNat n) := by
  intro same
  have first := val_ofScore_sub x m
  have second := val_ofScore_sub x n
  rw [same] at first
  omega

theorem sub_ofNat_add (x : Int32) {m n : Nat} (le : m ≤ n) :
    x - Int32.ofNat n + Int32.ofNat m = x - Int32.ofNat (n - m) := by
  obtain ⟨d, rfl⟩ := Nat.exists_eq_add_of_le le
  rw [Int32.ofNat_add, Nat.add_sub_cancel_left]
  grind

def State.lowered (s : State) (pointer : Variable) (n : Nat) : State :=
  s.setScore pointer (s.scores pointer - Int32.ofNat n)

theorem State.scores_lowered (s : State) (pointer : Variable) (n : Nat) (v : Variable) :
    (s.lowered pointer n).scores v = if v = pointer then s.scores pointer - Int32.ofNat n else s.scores v :=
  Function.update_apply _ _ _ _

theorem State.scores_lowered_self (s : State) (pointer : Variable) (n : Nat) :
    (s.lowered pointer n).scores pointer = s.scores pointer - Int32.ofNat n :=
  scores_setScore_self _ _ _

theorem State.scores_lowered_of_ne (s : State) {pointer v : Variable} (ne : v ≠ pointer) (n : Nat) :
    (s.lowered pointer n).scores v = s.scores v :=
  scores_setScore_of_ne _ ne _

namespace Memory.Access

theorem effects_append (first second : List Access) (s : State) :
    effects (first ++ second) s = effects second (effects first s) :=
  List.foldl_append

variable {pointer : Variable} {sources targets : List Variable} {s s' : State}

def pushesPops (pointer : Variable) (sources targets : List Variable) : List Access :=
  sources.map (push pointer) ++ targets.map (pop pointer)

theorem constants_pushesPops (pointer : Variable) (sources targets : List Variable) :
    (pushesPops pointer sources targets).flatMap constants =
      sources.flatMap (fun _ => storeConstants) ++ targets.flatMap fun _ => loadConstants := by
  simp [pushesPops, List.flatMap_map, constants]

theorem emits_pushesPops (head : Entity) (pointer : Variable) (sources targets : List Variable) :
    Emits (do sources.forM ((standard head).push pointer); targets.forM ((standard head).pop pointer)) ()
      ((pushesPops pointer sources targets).flatMap (commands head))
      ((pushesPops pointer sources targets).flatMap constants) := by
  simpa [pushesPops, emit] using emits_forM head (pushesPops pointer sources targets)

theorem isProper_of_mem_pushesPops (free : ∀ v ∈ pointer :: (sources ++ targets), v ∉ scratch)
    (foreign : ∀ v ∈ pointer :: targets, v.IsForeign) :
    ∀ a ∈ pushesPops pointer sources targets, a.IsProper := by
  have apart {v : Variable} (mem : v ∈ sources ++ targets) : ∀ u ∈ [pointer, v], u ∉ scratch :=
    List.forall_mem_cons.2 ⟨free pointer List.mem_cons_self,
      List.forall_mem_singleton.2 (free v (List.mem_cons_of_mem _ mem))⟩
  intro a mem
  rcases List.mem_append.1 mem with pushes | pops
  · obtain ⟨v, source, rfl⟩ := List.mem_map.1 pushes
    exact ⟨apart (List.mem_append_left _ source),
      List.forall_mem_singleton.2 (foreign pointer List.mem_cons_self)⟩
  · obtain ⟨v, target, rfl⟩ := List.mem_map.1 pops
    exact ⟨apart (List.mem_append_right _ target), List.forall_mem_cons.2
      ⟨foreign pointer List.mem_cons_self,
        List.forall_mem_singleton.2 (foreign v (List.mem_cons_of_mem _ target))⟩⟩

/-- The state after pushes: the pointer has moved down, and each value is where the pointer was. -/
structure Pushed (pointer : Variable) (sources : List Variable) (s s' : State) : Prop where
  scores : s'.scores = (s.lowered pointer sources.length).scores
  written : ∀ k v, sources[k]? = some v →
    s'.cells (Word.ofScore (s.scores pointer - Int32.ofNat k)) = Word.ofScore ((s.lowered pointer k).scores v)
  others : ∀ a, (∀ k < sources.length, a ≠ Word.ofScore (s.scores pointer - Int32.ofNat k)) →
    s'.cells a = s.cells a

/-- One more push writes to a barrel that the pushes before have not written to. -/
theorem Pushed.push (h : Pushed pointer sources s s') (few : sources.length < 4096)
    (v : Variable) : Pushed pointer (sources ++ [v]) s ((push pointer v).effect s') := by
  have top : s'.scores pointer = s.scores pointer - Int32.ofNat sources.length := by
    rw [h.scores, State.scores_lowered_self]
  have cells (a : Word) : ((Access.push pointer v).effect s').cells a =
      if a = Word.ofScore (s.scores pointer - Int32.ofNat sources.length) then
        Word.ofScore ((s.lowered pointer sources.length).scores v) else s'.cells a := by
    rw [← h.scores, ← top]
    exact Function.update_apply _ _ _ _
  refine ⟨?_, fun k u here => ?_, fun a other => ?_⟩
  · have down : s.scores pointer - Int32.ofNat sources.length - 1 =
        s.scores pointer - Int32.ofNat (sources.length + 1) := by
      rw [Int32.ofNat_add, Int32.sub_sub]
      rfl
    rw [List.length_append, List.length_singleton]
    change Function.update s'.scores pointer (s'.scores pointer - 1) = _
    rw [top, h.scores, down]
    exact Function.update_idem _ _ _
  · rw [cells]
    -- fewer than 4096 steps down the pointer has not come back to a word that was pushed
    rcases Nat.lt_trichotomy k sources.length with before | rfl | behind
    · rw [List.getElem?_append_left before] at here
      rw [if_neg (Word.ofScore_sub_ne _ before (by omega)), h.written k u here]
    · obtain rfl : v = u := by simpa using here
      rw [if_pos rfl]
    · rw [List.getElem?_eq_none (by simp; omega)] at here
      cases here
  · rw [List.length_append, List.length_singleton] at other
    rw [cells, if_neg (other _ (Nat.lt_succ_self _)), h.others a fun k less => other k (by omega)]

theorem pushed_effects (pointer : Variable) (few : sources.length ≤ 4096) (s : State) :
    Pushed pointer sources s (effects (sources.map (push pointer)) s) := by
  induction sources using List.reverseRecOn with
  | nil =>
    refine ⟨?_, fun k v here => ?_, fun a _ => rfl⟩
    · exact (Function.update_eq_self_iff.2 (Int32.sub_zero _)).symm
    · cases here
  | append_singleton sources v ih =>
    rw [List.length_append, List.length_singleton] at few
    rw [List.map_append, effects_append]
    exact (ih (by omega)).push (by omega) v

/-- The state after pops: the pointer has moved up, and each target holds what was at the address that the
pointer then had, unless a later pop has the same target. -/
structure Popped (pointer : Variable) (targets : List Variable) (s s' : State) : Prop where
  cells : s'.cells = s.cells
  top : s'.scores pointer = s.scores pointer + Int32.ofNat targets.length
  taken : ∀ k v, targets[k]? = some v → v ∉ targets.drop (k + 1) →
    s'.scores v = s.read (s.scores pointer + Int32.ofNat (k + 1))
  others : ∀ v, v ≠ pointer → v ∉ targets → s'.scores v = s.scores v

theorem Popped.pop (h : Popped pointer targets s s') {v : Variable}
    (apart : pointer ∉ targets ++ [v]) : Popped pointer (targets ++ [v]) s ((pop pointer v).effect s') := by
  have up : s'.scores pointer + 1 = s.scores pointer + Int32.ofNat (targets.length + 1) := by
    rw [h.top, Int32.ofNat_add, Int32.add_assoc]
    rfl
  have other : pointer ≠ v := fun same => apart (List.mem_append_right _ (List.mem_singleton.2 same))
  have here : ((Access.pop pointer v).effect s').scores v = s'.read (s'.scores pointer + 1) := by
    rw [effect, State.scores_setScore_self, State.scores_setScore_self, State.read_setScore]
  have elsewhere {u : Variable} (notPointer : u ≠ pointer) (notTarget : u ≠ v) :
      ((Access.pop pointer v).effect s').scores u = s'.scores u :=
    scores_effect _ (by simp [writes, notPointer, notTarget]) s'
  refine ⟨h.cells, ?_, fun k u mem last => ?_, fun u notPointer notTarget => ?_⟩
  · rw [List.length_append, List.length_singleton, ← up]
    exact (State.scores_setScore_of_ne _ other _).trans (State.scores_setScore_self _ _ _)
  · rcases Nat.lt_trichotomy k targets.length with before | rfl | behind
    · rw [List.getElem?_append_left before] at mem
      rw [List.drop_append_of_le_length (by omega), List.mem_append, List.mem_singleton, not_or] at last
      have notPointer : u ≠ pointer := by
        rintro rfl
        exact apart (List.mem_append_left _ (List.mem_of_getElem? mem))
      rw [elsewhere notPointer last.2, h.taken k u mem last.1]
    · obtain rfl : v = u := by simpa using mem
      rw [here, up, State.read, State.read, h.cells]
    · rw [List.getElem?_eq_none (by simp; omega)] at mem
      cases mem
  · rw [List.mem_append, List.mem_singleton, not_or] at notTarget
    rw [elsewhere notPointer notTarget.2, h.others u notPointer notTarget.1]

theorem popped_effects (apart : pointer ∉ targets) (s : State) :
    Popped pointer targets s (effects (targets.map (pop pointer)) s) := by
  induction targets using List.reverseRecOn with
  | nil =>
    refine ⟨rfl, (Int32.add_zero _).symm, fun k v here => ?_, fun v _ _ => rfl⟩
    cases here
  | append_singleton targets v ih =>
    rw [List.map_append, effects_append]
    exact (ih fun mem => apart (List.mem_append_left _ mem)).pop apart

/-- Pops behind pushes take what was pushed last first. -/
theorem taken_effects (apart : pointer ∉ targets)
    (few : sources.length ≤ 4096) (s : State) {k : Nat} {v t : Variable} (target : targets[k]? = some t)
    (last : t ∉ targets.drop (k + 1)) (source : sources.reverse[k]? = some v) :
    (effects (pushesPops pointer sources targets) s).scores t =
      Word.score (Word.ofScore ((s.lowered pointer (sources.length - 1 - k)).scores v)) := by
  have pushed := pushed_effects pointer few s
  have less : k < sources.length := by
    have inside := (List.getElem?_eq_some_iff.1 source).1
    rwa [List.length_reverse] at inside
  have there : sources[sources.length - 1 - k]? = some v := by
    rwa [List.getElem?_reverse less] at source
  have address : (s.lowered pointer sources.length).scores pointer + Int32.ofNat (k + 1) =
      s.scores pointer - Int32.ofNat (sources.length - 1 - k) := by
    rw [State.scores_lowered_self, sub_ofNat_add _ less, Nat.sub_sub, Nat.add_comm 1]
  rw [pushesPops, effects_append, (popped_effects apart _).taken k t target last, State.read, pushed.scores, address,
    pushed.written _ v there]

/-- Pushes and then pops are a stack. Up to 4096 values are pushed and any number of them popped again, by way
of variables that are none of the memory's own, where the pointer and the targets are named after no number
and the pointer is no target. A target holds what was popped into it last: the values come back in reverse
order, each reduced modulo 4096, and if the pointer itself is pushed, its value is the one that it has then.
The pointer has moved down by the number of values that are left, so it is back where it started if there are
none, and no block is changed but the barrels at the addresses that were pushed to. -/
theorem stack_gives_back {t t' : Session} {memory : Memory} (made : perform Memory.create t = (.ok memory, t'))
    {pointer : Variable} {sources targets : List Variable}
    (free : ∀ v ∈ pointer :: (sources ++ targets), v ∉ scratch)
    (foreign : ∀ v ∈ pointer :: targets, v.IsForeign) (apart : pointer ∉ targets)
    (few : sources.length ≤ 4096) (fewer : targets.length ≤ sources.length) :
    let ks := sources.flatMap (fun _ => storeConstants) ++ targets.flatMap fun _ => loadConstants
    ∃ cs, Emits (do sources.forM (memory.push pointer); targets.forM (memory.pop pointer)) () cs ks ∧
      ∀ (p : Site) (w : World) (cells : Word → Word), Holds memory.head w cells → w.Knows ks →
        let down (n : Nat) := w.score pointer - Int32.ofNat n
        let pushed (k : Nat) (v : Variable) := if v = pointer then down k else w.score v
        let w' := w.runAll p cs
        (∀ k u v, targets[k]? = some u → u ∉ targets.drop (k + 1) → sources.reverse[k]? = some v →
          (w'.score u).toInt = (pushed (sources.length - 1 - k) v).toInt % 4096) ∧
        w'.score pointer = down (sources.length - targets.length) ∧
        (∀ v ∉ scratch, v ≠ pointer → v ∉ targets → w'.score v = w.score v) ∧
        ∀ q, (∀ k < sources.length, q ≠ Word.site (Word.ofScore (down k))) → w'.blocks q = w.blocks q := by
  intro ks
  obtain ⟨head, rfl⟩ := Memory.ensures_create t memory t' made
  have emits := emits_pushesPops head pointer sources targets
  have constants : (pushesPops pointer sources targets).flatMap Access.constants = ks :=
    constants_pushesPops pointer sources targets
  refine ⟨_, constants ▸ emits, fun p w cells holds knows => ?_⟩
  have known : ∀ a ∈ pushesPops pointer sources targets, a.constants ⊆ ks :=
    fun a mem k inside => constants ▸ List.mem_flatMap.2 ⟨a, mem, inside⟩
  let s : State := ⟨w.score, cells⟩
  have depicts : Depicts head w s := ⟨holds, fun _ _ => rfl⟩
  obtain ⟨after, -, outside, -⟩ := depicts_effects (isProper_of_mem_pushesPops free foreign) known depicts
    knows p
  have pushed := pushed_effects pointer few s
  have popped := popped_effects apart (effects (sources.map (push pointer)) s)
  rw [← effects_append, ← pushesPops] at popped
  refine ⟨fun k u v target last source => ?_, ?_, fun v inside notPointer notTarget => ?_, fun q other => ?_⟩
  · have inside : u ∉ scratch :=
      free u (List.mem_cons_of_mem _ (List.mem_append_right _ (List.mem_of_getElem? target)))
    rw [after.scores u inside, taken_effects apart few s target last source, Word.toInt_score, Word.val_ofScore,
      State.scores_lowered]
  · rw [after.scores pointer (free pointer List.mem_cons_self), popped.top, pushed.scores,
      State.scores_lowered_self, sub_ofNat_add _ fewer]
  · rw [after.scores v inside, popped.others v notPointer notTarget, pushed.scores,
      State.scores_lowered_of_ne _ notPointer]
  · by_cases inMemory : InMemory q
    · obtain ⟨a, rfl⟩ := Word.exists_site_eq inMemory
      have kept := pushed.others a fun k less same => other k less (congrArg Word.site same)
      rw [after.cells a, popped.cells, kept, holds.cells a]
    · exact outside q inMemory

/-- A pointer that passes the least number, which is also the address zero. -/
theorem stack_gives_back_wrapped :
    (∀ v ∈ [found, number, index, ⟨"first"⟩, ⟨"second"⟩], v ∉ scratch) ∧
      Holds wrappedHead wrappedWorld (fun _ => 0) ∧ wrappedWorld.score found = -2147483648 ∧
      ∃ cs ks, Emits (do
          [number, index].forM ((standard wrappedHead).push found)
          [⟨"first"⟩, ⟨"second"⟩].forM ((standard wrappedHead).pop found)) () cs ks ∧
        wrappedWorld.Knows ks ∧
        let w := wrappedWorld.runAll ⟨0, 0, 0⟩ cs
        (w.score ⟨"first"⟩).toInt = 4095 ∧ (w.score ⟨"second"⟩).toInt = 904 ∧
          w.score found = -2147483648 := by
  have free : ∀ v ∈ [found, number, index, ⟨"first"⟩, ⟨"second"⟩], v ∉ scratch := by decide
  have words : ∀ v ∈ [found, ⟨"first"⟩, ⟨"second"⟩], v.isWord := by decide
  have made : perform (Memory.create : EmitM Memory) {} =
      (.ok (standard wrappedHead), (perform (Memory.create : EmitM Memory) {}).2) := by
    decide +kernel
  have zeroed : ∀ q, InMemory q → wrappedWorld.blocks q = some Filling.barrel.block :=
    fun q inside => if_pos inside.2.1.1
  have holds : Holds wrappedHead wrappedWorld (fun _ => 0) := by
    refine ⟨by decide, fun a => ?_⟩
    rw [zeroed _ (Word.inMemory_site a), Word.counts_zero]
    rfl
  have known : (((storeConstants ++ storeConstants) ++ (loadConstants ++ loadConstants)).all fun k =>
      wrappedWorld.score (constantNamed k) == k) = true := by decide
  have knows : wrappedWorld.Knows ((storeConstants ++ storeConstants) ++ (loadConstants ++ loadConstants)) :=
    fun k mem => beq_iff_eq.1 (List.all_eq_true.1 known k mem)
  have foreign : ∀ v ∈ [found, ⟨"first"⟩, ⟨"second"⟩], v.IsForeign :=
    fun v mem => v.isForeign_of_isWord (words v mem)
  obtain ⟨cs, emits, runs⟩ := @stack_gives_back _ _ _ made found [number, index] [⟨"first"⟩, ⟨"second"⟩]
    free foreign (by decide) (by decide) (by decide)
  obtain ⟨taken, top, -, -⟩ := runs ⟨0, 0, 0⟩ wrappedWorld _ holds knows
  refine ⟨free, holds, by decide, cs, _, emits, knows, ?_, ?_, ?_⟩
  · exact (taken 0 ⟨"first"⟩ index rfl (by decide) rfl).trans (by decide)
  · exact (taken 1 ⟨"second"⟩ number rfl (by decide) rfl).trans (by decide)
  · exact top.trans (by decide)

end Memory.Access

end BlockComputer.Machine
