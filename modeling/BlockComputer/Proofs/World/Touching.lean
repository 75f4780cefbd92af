import BlockComputer.Proofs.Control.Structured
import BlockComputer.Proofs.Emission.Arithmetic
import BlockComputer.Proofs.World.Frame

/-!
What a command touches.

A plain command sets scores, moves entities and shows texts. It changes no block, makes and removes no
entity, and the only scores that it may change are the ones it touches; behind qualifiers these are also
the ones that wait for its result.
-/

namespace BlockComputer

theorem World.isSome_locate_iff {w : World} {e : Entity} :
    (w.locate e).isSome ↔ e.tag ∈ w.entities.map Being.tag := by
  rw [locate, Option.isSome_map, Being.first?, List.find?_isSome, List.mem_map]
  exact exists_congr fun b => and_congr_right fun _ => beq_iff_eq

/-- The second world has the blocks and the tags of the first, and its scores but for some. -/
structure World.SameBut (vs : List Variable) (w w' : World) : Prop where
  blocks : w'.blocks = w.blocks
  tags : w'.entities.map Being.tag = w.entities.map Being.tag
  score : ∀ v ∉ vs, w'.score v = w.score v

namespace World.SameBut

variable {vs us : List Variable} {w w' w'' : World}

theorem refl (vs : List Variable) (w : World) : w.SameBut vs w :=
  ⟨rfl, rfl, fun _ _ => rfl⟩

theorem trans (h : w.SameBut vs w') (h' : w'.SameBut vs w'') : w.SameBut vs w'' where
  blocks := h'.blocks.trans h.blocks
  tags := h'.tags.trans h.tags
  score v mem := (h'.score v mem).trans (h.score v mem)

theorem mono (h : w.SameBut vs w') (subset : ∀ v ∈ vs, v ∈ us) : w.SameBut us w' where
  blocks := h.blocks
  tags := h.tags
  score v mem := h.score v fun inside => mem (subset v inside)

theorem setScore (w : World) (v : Variable) (n : Int32) : w.SameBut [v] (w.setScore v n) where
  blocks := rfl
  tags := rfl
  score _ mem := score_setScore_of_ne w (fun same => mem (List.mem_singleton.2 same)) n

theorem moveEntity (w : World) (tag : String) (move : Point → Point) :
    w.SameBut [] (w.moveEntity tag move) where
  blocks := rfl
  tags := Being.map_tag_moveFirst tag move w.entities
  score _ _ := rfl

theorem announce (w : World) (text : String) : w.SameBut [] (w.announce text) :=
  ⟨rfl, rfl, fun _ _ => rfl⟩

theorem isSome_locate (same : w.SameBut vs w') (e : Entity) :
    (w'.locate e).isSome = (w.locate e).isSome := by
  rw [Bool.eq_iff_iff, isSome_locate_iff, isSome_locate_iff, same.tags]

end World.SameBut

namespace StoreTarget

def touches : StoreTarget → List Variable
  | .score v => [v]
  | _ => []

def isPlain : StoreTarget → Bool
  | .block .. => false
  | _ => true

end StoreTarget

namespace Qualifier

def touches : Qualifier → List Variable
  | .storeResult t | .storeSuccess t => t.touches
  | _ => []

def isPlain : Qualifier → Bool
  | .storeResult t | .storeSuccess t => t.isPlain
  | _ => true

end Qualifier

namespace Command

def touches : Command → List Variable
  | .execute qs c => qs.flatMap Qualifier.touches ++ c.touches
  | c => c.writes

def isPlain : Command → Bool
  | .execute qs c => qs.all Qualifier.isPlain && c.isPlain
  | .setCount .. | .fill .. | .clone .. | .summon _ | .kill _ => false
  | _ => true

end Command

def Pending.IsPlain (vs : List Variable) (p : Pending) : Prop :=
  ∀ d, p.destination? = some d → (∃ v ∈ vs, d = .score v) ∨ ∃ tag axis scale, d = .coordinate tag axis scale

theorem Pending.IsPlain.settle {vs : List Variable} {p : Pending} (plain : p.IsPlain vs)
    (outcome : Option Int32) (w : World) : w.SameBut vs (p.settle outcome w) := by
  unfold Pending.settle
  split
  · exact .refl vs w
  · next d destination =>
    rcases plain d destination with ⟨v, mem, rfl⟩ | ⟨tag, axis, scale, rfl⟩
    · refine (World.SameBut.setScore w v _).mono fun u only => ?_
      rwa [List.mem_singleton.1 only]
    · exact (World.SameBut.moveEntity w tag _).mono (List.nil_subset _)

theorem Pending.settleAll {vs : List Variable} {ps : List Pending} (plain : ∀ p ∈ ps, p.IsPlain vs)
    (outcome : Option Int32) (w : World) : w.SameBut vs (ps.foldl (Pending.settle outcome) w) := by
  induction ps generalizing w with
  | nil => exact .refl vs w
  | cons p ps ih =>
    have first := (plain p List.mem_cons_self).settle outcome w
    exact first.trans (ih (fun q mem => plain q (List.mem_cons_of_mem p mem)) _)

theorem StoreTarget.isPlain_pending {t : StoreTarget} {vs : List Variable}
    (plain : t.isPlain) (inside : ∀ v ∈ t.touches, v ∈ vs) (success : Bool)
    (origin : Point) : Pending.IsPlain vs ⟨success, t.destination? origin⟩ := by
  intro d destination
  cases t with
  | score v =>
    cases destination
    exact .inl ⟨v, inside v List.mem_cons_self, rfl⟩
  | entity e path type scale =>
    obtain ⟨axis, -, rfl⟩ := Option.map_eq_some_iff.1 destination
    exact .inr ⟨_, axis, _, rfl⟩
  | block => cases plain

theorem Qualifier.forall_enter {P : Pending → Prop} {qs : List Qualifier}
    (each : ∀ t, .storeResult t ∈ qs ∨ .storeSuccess t ∈ qs → ∀ success origin, P ⟨success, t.destination? origin⟩)
    {w : World} {origin inner : Point} {pending : List Pending}
    (entered : Qualifier.enter w qs origin = some (inner, pending)) : ∀ p ∈ pending, P p := by
  induction qs generalizing origin pending with
  | nil =>
    cases entered
    exact fun _ mem => nomatch mem
  | cons q qs ih =>
    have later {o : Point} {ps : List Pending} (h : Qualifier.enter w qs o = some (inner, ps)) :
        ∀ p ∈ ps, P p :=
      ih (fun t mem => each t (mem.imp (List.mem_cons_of_mem q) (List.mem_cons_of_mem q))) h
    cases q with
    | atEntity e =>
      obtain ⟨o, -, entered⟩ := Option.bind_eq_some_iff.1 entered
      exact later entered
    | asEntity e =>
      unfold Qualifier.enter at entered
      split at entered
      · exact later entered
      · cases entered
    | ifHolds c =>
      unfold Qualifier.enter at entered
      split at entered
      · exact later entered
      · cases entered
    | unlessHolds c =>
      unfold Qualifier.enter at entered
      split at entered
      · cases entered
      · exact later entered
    | storeResult t =>
      obtain ⟨⟨i, ps⟩, behind, same⟩ := Option.map_eq_some_iff.1 entered
      cases same
      exact List.forall_mem_cons.2 ⟨each t (.inl List.mem_cons_self) _ _, later behind⟩
    | storeSuccess t =>
      obtain ⟨⟨i, ps⟩, behind, same⟩ := Option.map_eq_some_iff.1 entered
      cases same
      exact List.forall_mem_cons.2 ⟨each t (.inr List.mem_cons_self) _ _, later behind⟩

theorem Qualifier.isPlain_enter {qs : List Qualifier} {vs : List Variable}
    (plain : qs.all Qualifier.isPlain) (inside : ∀ v ∈ qs.flatMap Qualifier.touches, v ∈ vs)
    {w : World} {origin inner : Point} {pending : List Pending}
    (entered : Qualifier.enter w qs origin = some (inner, pending)) :
    ∀ p ∈ pending, p.IsPlain vs := by
  refine forall_enter (fun t mem success origin => ?_) entered
  rw [List.all_eq_true] at plain
  have touched {q : Qualifier} (mem : q ∈ qs) : ∀ v ∈ q.touches, v ∈ vs :=
    fun v touches => inside v (List.mem_flatMap.2 ⟨q, mem, touches⟩)
  rcases mem with result | success
  · exact StoreTarget.isPlain_pending (plain _ result) (touched result) _ _
  · exact StoreTarget.isPlain_pending (plain _ success) (touched success) _ _

def Pending.Spares (v : Variable) (p : Pending) : Prop :=
  p.destination? ≠ some (.score v)

theorem Pending.Spares.settleAll {v : Variable} {ps : List Pending} (spared : ∀ p ∈ ps, p.Spares v)
    (outcome : Option Int32) (w : World) : (ps.foldl (Pending.settle outcome) w).scores v = w.scores v := by
  induction ps generalizing w with
  | nil => rfl
  | cons p ps ih =>
    obtain ⟨first, others⟩ := List.forall_mem_cons.1 spared
    rw [List.foldl_cons, ih others, Pending.settle]
    cases destination : p.destination? with
    | none => rfl
    | some d =>
      cases d with
      | score u =>
        have ne : v ≠ u := fun same => first (same ▸ destination)
        exact Function.update_of_ne ne _ _
      | coordinate => rfl
      | count site slot =>
        simp only [World.keep, World.setCount]
        split <;> rfl

theorem Qualifier.spares_enter {qs : List Qualifier} {v : Variable}
    (spared : v ∉ qs.flatMap Qualifier.touches) {w : World} {origin inner : Point} {pending : List Pending}
    (entered : Qualifier.enter w qs origin = some (inner, pending)) : ∀ p ∈ pending, p.Spares v := by
  refine forall_enter (fun t mem success origin same => spared ?_) entered
  have touched : v ∈ t.touches := by
    cases t with
    | score u =>
      cases same
      exact List.mem_singleton_self _
    | entity | block =>
      obtain ⟨_, -, other⟩ := Option.map_eq_some_iff.1 same
      cases other
  rcases mem with result | success
  · exact List.mem_flatMap.2 ⟨_, result, touched⟩
  · exact List.mem_flatMap.2 ⟨_, success, touched⟩

namespace Command

theorem sameBut_after {c : Command} (plain : c.isPlain) (origin : Point) (w : World) :
    w.SameBut c.touches (c.after origin w) := by
  induction c generalizing origin with
  | execute qs c ih =>
    rw [isPlain, Bool.and_eq_true] at plain
    rw [after, run_execute]
    cases entered : Qualifier.enter w qs origin with
    | none => exact .refl _ w
    | some inner =>
      have body : w.SameBut (execute qs c).touches (c.after inner.1 w) :=
        (ih plain.2 inner.1).mono fun v mem => List.mem_append_right _ mem
      refine body.trans (Pending.settleAll (Qualifier.isPlain_enter plain.1 ?_ entered) _ _)
      exact fun v mem => List.mem_append_left _ mem
  | setScore v n | addScore v n | removeScore v n => exact .setScore w v _
  | resetScore v =>
    refine ⟨rfl, rfl, fun u mem => ?_⟩
    have ne : u ≠ v := fun same => mem (List.mem_singleton.2 same)
    simp [after, run, World.resetScore, World.score, Function.update_of_ne ne]
  | operateScore v op u =>
    have score : (operateScore v op u).isScore = true := rfl
    refine ⟨?_, by rw [entities_after score], fun x mem => scores_after score mem origin w⟩
    by_cases swap : op = .swap <;> simp [after, run, swap]
  | raw text =>
    by_cases empty : text.isEmpty
    · simpa [after, run, empty] using World.SameBut.refl _ w
    · simpa [after, run, empty] using (World.SameBut.announce w text).mono (List.nil_subset _)
  | tellScore v => exact (World.SameBut.announce w _).mono (List.nil_subset _)
  | teleport e target =>
    rw [after, run]
    split
    · exact (World.SameBut.moveEntity w e.tag _).mono (List.nil_subset _)
    · exact .refl _ w
  | placeholder | addObjective | getScore | getCount => exact .refl _ w
  | setCount | fill | clone | summon | kill => cases plain

theorem scores_of_notMem_touches {c : Command} {v : Variable} (spared : v ∉ c.touches) (origin : Point)
    (w : World) : (c.after origin w).scores v = w.scores v := by
  induction c generalizing origin with
  | execute qs c ih =>
    obtain ⟨outside, inside⟩ := not_or.1 (fun mem => spared (List.mem_append.2 mem))
    rw [after, run_execute]
    cases entered : Qualifier.enter w qs origin with
    | none => rfl
    | some inner => exact (Pending.Spares.settleAll (Qualifier.spares_enter outside entered) _ _).trans (ih inside _)
  | setScore u n | addScore u n | removeScore u n | resetScore u =>
    exact Function.update_of_ne (fun same => spared (List.mem_singleton.2 same)) _ _
  | operateScore u op s =>
    by_cases swap : op = .swap
    · have ne : v ≠ u ∧ v ≠ s := by simpa [touches, writes, swap] using spared
      simp [after, run, swap, World.setScore, Function.update_of_ne ne.1, Function.update_of_ne ne.2]
    · have ne : v ≠ u := by simpa [touches, writes, swap] using spared
      simp [after, run, swap, World.setScore, Function.update_of_ne ne]
  | raw | teleport | kill =>
    simp only [after, run]
    split <;> rfl
  | setCount =>
    simp only [after, run]
    split
    · unfold World.setCount
      split <;> rfl
    · rfl
  | placeholder | addObjective | getScore | getCount | tellScore | summon | fill | clone => rfl

end Command

theorem Command.settled_of_isPlain {c : Command} {condition : Condition} (plain : c.isPlain)
    (spares : ∀ v ∈ condition.reads, v ∉ c.touches) : c.Settled condition := by
  intro origin w
  have same := sameBut_after plain origin w
  cases condition with
  | compare left relation right =>
    have left_same := same.score left (spares left (by simp [Condition.reads]))
    have right_same := same.score right (spares right (by simp [Condition.reads]))
    simp only [Condition.holds, left_same, right_same]
  | inRange v range =>
    have same := same.score v (spares v (by simp [Condition.reads]))
    simp only [Condition.holds, same]
  | present e => exact same.isSome_locate e

theorem World.sameBut_runAll {cs : List Command} {vs : List Variable} (plain : cs.all Command.isPlain)
    (inside : ∀ c ∈ cs, ∀ v ∈ c.touches, v ∈ vs) (p : Site) (w : World) :
    w.SameBut vs (w.runAll p cs) := by
  induction cs generalizing p w with
  | nil => exact .refl vs w
  | cons c cs ih =>
    rw [List.all_cons, Bool.and_eq_true] at plain
    have first := (Command.sameBut_after plain.1 p.centre w).mono (inside c List.mem_cons_self)
    exact first.trans (ih plain.2 (fun d mem => inside d (List.mem_cons_of_mem c mem)) _ _)

theorem World.scores_runAll_of_notMem_touches {cs : List Command} {v : Variable}
    (spared : ∀ c ∈ cs, v ∉ c.touches) (p : Site) (w : World) : (w.runAll p cs).scores v = w.scores v := by
  induction cs generalizing p w with
  | nil => rfl
  | cons c cs ih =>
    obtain ⟨first, others⟩ := List.forall_mem_cons.1 spared
    rw [runAll_cons, ih others, Command.scores_of_notMem_touches first]

/-- A score that is set to one number, and is touched by nothing else, has this number in the end. -/
theorem World.scores_runAll_of_mem {cs : List Command} {v : Variable} {n : Int32} (mem : .setScore v n ∈ cs)
    (only : ∀ c ∈ cs, v ∈ c.touches → c = .setScore v n) (p : Site) (w : World) :
    (w.runAll p cs).scores v = some n := by
  induction cs generalizing p w with
  | nil => cases mem
  | cons c cs ih =>
    obtain ⟨first, others⟩ := List.forall_mem_cons.1 only
    rw [runAll_cons]
    by_cases again : .setScore v n ∈ cs
    · exact ih again others _ _
    · obtain rfl : .setScore v n = c := (List.mem_cons.1 mem).resolve_right again
      rw [scores_runAll_of_notMem_touches fun d later touched => again (others d later touched ▸ later)]
      exact Function.update_self _ _ _

def Command.staysIn (vs : List Variable) (c : Command) : Bool :=
  c.isPlain && c.touches.all (· ∈ vs)

namespace Command

theorem staysIn_iff {vs : List Variable} {c : Command} :
    c.staysIn vs ↔ c.isPlain ∧ ∀ v ∈ c.touches, v ∈ vs := by
  rw [staysIn, Bool.and_eq_true, List.all_eq_true]
  simp

theorem staysIn_mono {vs us : List Variable} {c : Command} (stays : c.staysIn vs)
    (subset : ∀ v ∈ vs, v ∈ us) : c.staysIn us := by
  rw [staysIn_iff] at stays ⊢
  exact ⟨stays.1, fun v mem => subset v (stays.2 v mem)⟩

theorem staysIn_addCommand (v : Variable) (n : Int) : (v.addCommand n).staysIn [v] := by
  unfold Variable.addCommand
  split <;> simp [staysIn_iff, isPlain, touches, writes]

theorem staysIn_operateScore (v u : Variable) {op : ScoreOp} (ne : op ≠ .swap) :
    (operateScore v op u).staysIn [v] := by
  simp [staysIn_iff, isPlain, touches, writes, ne]

end Command

theorem World.sameBut_of_staysIn {cs : List Command} {vs : List Variable}
    (stays : cs.all (Command.staysIn vs)) (p : Site) (w : World) : w.SameBut vs (w.runAll p cs) := by
  have each (c : Command) (mem : c ∈ cs) := Bool.and_eq_true_iff.1 (List.all_eq_true.1 stays c mem)
  refine sameBut_runAll (List.all_eq_true.2 fun c mem => (each c mem).1) (fun c mem v touched => ?_) p w
  exact of_decide_eq_true (List.all_eq_true.1 (each c mem).2 v touched)

end BlockComputer
