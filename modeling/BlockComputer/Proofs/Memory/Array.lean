import BlockComputer.Proofs.Memory.Head

/-!
The memory as an array of words.

A state is what is left of a world when the means of access are forgotten: the scores and the words. Each
access does to a world that depicts a state what it is meant to do to the state, so a sequence of
accesses is a run of the array.
-/

namespace BlockComputer.Machine

/-- The scores, and the words of the memory. -/
structure State where
  scores : Variable → Int32
  cells : Word → Word

namespace State

variable (s : State)

def setScore (v : Variable) (n : Int32) : State :=
  { s with scores := Function.update s.scores v n }

def setCell (a b : Word) : State :=
  { s with cells := Function.update s.cells a b }

def read (n : Int32) : Int32 :=
  Word.score (s.cells (Word.ofScore n))

def write (n value : Int32) : State :=
  s.setCell (Word.ofScore n) (Word.ofScore value)

@[simp] theorem scores_setScore_self (v : Variable) (n : Int32) : (s.setScore v n).scores v = n :=
  Function.update_self _ _ _

theorem scores_setScore_of_ne {u v : Variable} (ne : u ≠ v) (n : Int32) :
    (s.setScore v n).scores u = s.scores u :=
  Function.update_of_ne ne _ _

@[simp] theorem cells_setCell_self (a b : Word) : (s.setCell a b).cells a = b :=
  Function.update_self _ _ _

theorem cells_setCell_of_ne {a c : Word} (ne : c ≠ a) (b : Word) :
    (s.setCell a b).cells c = s.cells c :=
  Function.update_of_ne ne _ _

@[simp] theorem cells_setScore (v : Variable) (n : Int32) : (s.setScore v n).cells = s.cells := rfl

@[simp] theorem read_setScore (v : Variable) (n k : Int32) : (s.setScore v n).read k = s.read k := rfl

@[simp] theorem scores_write (n value : Int32) : (s.write n value).scores = s.scores := rfl

end State

namespace Memory

/-- Off the scratch the world has the scores of the state, and its barrels hold the words. -/
structure Depicts (head : Entity) (w : World) (s : State) : Prop extends Holds head w s.cells where
  scores : ∀ v ∉ scratch, w.score v = s.scores v

namespace Depicts

variable {head : Entity} {w u : World} {s : State}

theorem of_sameBut (h : Depicts head w s) (same : w.SameBut scratch u) : Depicts head u s where
  head := same.isSome_locate head ▸ h.head
  cells := same.blocks ▸ h.cells
  scores v outside := (same.score v outside).trans (h.scores v outside)

theorem setScore (h : Depicts head w s) (v : Variable) (n : Int32) :
    Depicts head (w.setScore v n) (s.setScore v n) where
  head := h.head
  cells := h.cells
  scores u outside := by
    by_cases same : u = v
    · rw [same, World.score_setScore_self, State.scores_setScore_self]
    · rw [World.score_setScore_of_ne _ same, State.scores_setScore_of_ne _ same, h.scores u outside]

theorem setBlock (h : Depicts head w s) (a b : Word) :
    Depicts head (w.setBlock (Word.site a) (.barrel (Word.counts b))) (s.setCell a b) where
  head := h.head
  cells c := by
    by_cases same : c = a
    · rw [same, World.blocks_setBlock_self, State.cells_setCell_self]
    · have apart : Word.site c ≠ Word.site a := fun sites => same (Word.site_injective sites)
      rw [World.blocks_setBlock_of_ne _ apart, State.cells_setCell_of_ne _ same, h.cells]
  scores := h.scores

theorem addCommand (h : Depicts head w s) {v : Variable} (apart : v ∉ scratch) (amount : Int)
    (origin : Point) : Depicts head ((v.addCommand amount).after origin w)
      (s.setScore v (s.scores v + Int32.ofInt amount)) := by
  rw [Variable.after_addCommand, h.scores v apart]
  exact h.setScore v _

end Depicts

/-- An access to the memory, with the variables that it reads and writes. -/
inductive Access where
  | load (index target : Variable)
  | store (index source : Variable)
  | push (pointer source : Variable)
  | pop (pointer target : Variable)
deriving DecidableEq, Repr

namespace Access

def emit (memory : Memory) : Access → EmitM Unit
  | .load index target => memory.load index target
  | .store index source => memory.store index source
  | .push pointer source => memory.push pointer source
  | .pop pointer target => memory.pop pointer target

def effect : Access → State → State
  | .load index target, s => s.setScore target (s.read (s.scores index))
  | .store index source, s => s.write (s.scores index) (s.scores source)
  | .push pointer source, s =>
    (s.write (s.scores pointer) (s.scores source)).setScore pointer (s.scores pointer - 1)
  | .pop pointer target, s =>
    let s := s.setScore pointer (s.scores pointer + 1)
    s.setScore target (s.read (s.scores pointer))

def address : Access → State → Int32
  | .load index _, s | .store index _, s | .push index _, s => s.scores index
  | .pop pointer _, s => s.scores pointer + 1

def operands : Access → List Variable
  | .load u v | .store u v | .push u v | .pop u v => [u, v]

def writes : Access → List Variable
  | .load _ target => [target]
  | .store .. => []
  | .push pointer _ => [pointer]
  | .pop pointer target => [pointer, target]

/-- The variables are none of the memory's own, and what is written is no constant. -/
structure IsProper (a : Access) : Prop where
  apart : ∀ v ∈ a.operands, v ∉ scratch
  foreign : ∀ v ∈ a.writes, v.IsForeign

theorem scores_effect (a : Access) {v : Variable} (other : v ∉ a.writes) (s : State) :
    (a.effect s).scores v = s.scores v := by
  cases a with
  | load index target =>
    exact State.scores_setScore_of_ne _ (by simpa [writes] using other) _
  | store index source => rfl
  | push pointer source =>
    exact State.scores_setScore_of_ne _ (by simpa [writes] using other) _
  | pop pointer target =>
    have ne : v ≠ pointer ∧ v ≠ target := by simpa [writes] using other
    rw [effect, State.scores_setScore_of_ne _ ne.2, State.scores_setScore_of_ne _ ne.1]

def commands (head : Entity) : Access → List Command
  | .load index target => (standard head).loadCommands index target
  | .store index source => (standard head).storeCommands index source
  | .push pointer source => (standard head).storeCommands pointer source ++ [pointer.addCommand (-1)]
  | .pop pointer target => pointer.addCommand 1 :: (standard head).loadCommands pointer target

def constants : Access → List Int32
  | .load .. | .pop .. => loadConstants
  | .store .. | .push .. => storeConstants

theorem emits (head : Entity) (a : Access) :
    Emits (a.emit (standard head)) () (a.commands head) a.constants := by
  cases a with
  | load index target => exact emits_load _ _ _
  | store index source => exact emits_store _ _ _
  | push pointer source => exact emits_push _ _ _
  | pop pointer target => exact emits_pop _ _ _

theorem emits_forM (head : Entity) (accesses : List Access) :
    Emits (accesses.forM (Access.emit (standard head))) () (accesses.flatMap (Access.commands head))
      (accesses.flatMap Access.constants) := by
  induction accesses with
  | nil => exact .pure ()
  | cons a accesses ih => exact (a.emits head).seq ih

/-- The world that an access leaves: nothing but the memory and scores has changed. -/
structure Leaves (a : Access) (head : Entity) (ks : List Int32) (w : World) (s : State)
    (w' : World) : Prop where
  depicts : Depicts head w' (a.effect s)
  knows : w'.Knows ks
  stands : w'.Stands head (Word.site (Word.ofScore (a.address s)))
  outside : ∀ p, ¬ InMemory p → w'.blocks p = w.blocks p
  tags : w'.entities.map Being.tag = w.entities.map Being.tag

section step

variable {head : Entity} {ks : List Int32} {w : World} {s : State} (depicts : Depicts head w s)
  (knows : w.Knows ks)

include depicts knows

theorem leaves_load {index target : Variable} (proper : (load index target).IsProper)
    (known : loadConstants ⊆ ks) (p : Site) :
    (load index target).Leaves head ks w s
      (w.runAll p ((load index target).commands head)) := by
  have apart : index ∉ scratch := proper.apart index (by simp [operands])
  have free : target ∉ scratch := proper.apart target (by simp [operands])
  have foreign : target.IsForeign := proper.foreign target (by simp [writes])
  obtain ⟨u, same, stands, ran⟩ :=
    runAll_load depicts.toHolds (knows.mono known) apart free foreign p
  rw [depicts.scores index apart] at stands ran
  rw [commands, ran]
  exact ⟨(depicts.of_sameBut same).setScore _ _, (knows_of_sameBut knows same).setForeign foreign _,
    stands, fun q _ => congrFun same.blocks q, same.tags⟩

theorem leaves_store {index source : Variable} (proper : (store index source).IsProper)
    (known : storeConstants ⊆ ks) (p : Site) :
    (store index source).Leaves head ks w s
      (w.runAll p ((store index source).commands head)) := by
  have apart : index ∉ scratch := proper.apart index (by simp [operands])
  have free : source ∉ scratch := proper.apart source (by simp [operands])
  obtain ⟨u, same, stands, ran⟩ :=
    runAll_store depicts.toHolds (knows.mono known) apart source p
  rw [depicts.scores index apart] at stands ran
  rw [depicts.scores source free] at ran
  rw [commands, ran]
  have knows' : u.Knows ks := knows_of_sameBut knows same
  refine ⟨(depicts.of_sameBut same).setBlock _ _, knows', stands, fun q outside => ?_, same.tags⟩
  have apart : q ≠ Word.site (Word.ofScore (s.scores index)) := by
    rintro rfl
    exact outside (Word.inMemory_site _)
  rw [World.blocks_setBlock_of_ne _ apart, same.blocks]

/-- What one access does to the world it does to the array. -/
theorem leaves {a : Access} (proper : a.IsProper) (known : a.constants ⊆ ks) (p : Site) :
    a.Leaves head ks w s (w.runAll p (a.commands head)) := by
  cases a with
  | load index target => exact leaves_load depicts knows proper known p
  | store index source => exact leaves_store depicts knows proper known p
  | push pointer source =>
    have apart : pointer ∉ scratch := proper.apart pointer (by simp [operands])
    have foreign : pointer.IsForeign := proper.foreign pointer (by simp [writes])
    have stored : (store pointer source).Leaves head ks w s
        (w.runAll p ((standard head).storeCommands pointer source)) :=
      leaves_store depicts knows ⟨proper.apart, List.forall_mem_nil _⟩ known p
    rw [commands, World.runAll_append, World.runAll_cons, World.runAll_nil]
    generalize w.runAll p ((standard head).storeCommands pointer source) = u at stored ⊢
    have moved := stored.depicts.addCommand apart (-1)
      (p.shift ((standard head).storeCommands pointer source).length).centre
    rw [Variable.after_addCommand] at moved ⊢
    have less : (effect (store pointer source) s).scores pointer + Int32.ofInt (-1) =
        s.scores pointer - 1 := by
      rw [effect, State.scores_write, Int32.sub_eq_add_neg]
      rfl
    rw [less] at moved
    exact ⟨moved, stored.knows.setForeign foreign _, stored.stands, stored.outside, stored.tags⟩
  | pop pointer target =>
    have apart : pointer ∉ scratch := proper.apart pointer (by simp [operands])
    have foreign : pointer.IsForeign := proper.foreign pointer (by simp [writes])
    have proper' : (load pointer target).IsProper :=
      ⟨proper.apart, fun v mem => proper.foreign v (List.mem_cons_of_mem _ mem)⟩
    have moved := depicts.addCommand apart 1 p.centre
    rw [commands, World.runAll_cons]
    rw [Variable.after_addCommand] at moved ⊢
    have loaded := leaves_load moved (knows.setForeign foreign _) proper' known (p.shift 1)
    have stands := loaded.stands
    rw [address, State.scores_setScore_self] at stands
    exact ⟨loaded.depicts, loaded.knows, stands, loaded.outside, loaded.tags⟩

end step

def effects (accesses : List Access) (s : State) : State :=
  accesses.foldl (fun s a => a.effect s) s

theorem depicts_effects {head : Entity} {ks : List Int32} {accesses : List Access}
    (proper : ∀ a ∈ accesses, a.IsProper) (known : ∀ a ∈ accesses, a.constants ⊆ ks) {w : World}
    {s : State} (depicts : Depicts head w s) (knows : w.Knows ks) (p : Site) :
    let w' := w.runAll p (accesses.flatMap (Access.commands head))
    Depicts head w' (effects accesses s) ∧ w'.Knows ks ∧
      (∀ q, ¬ InMemory q → w'.blocks q = w.blocks q) ∧
      w'.entities.map Being.tag = w.entities.map Being.tag := by
  induction accesses generalizing w s p with
  | nil => exact ⟨depicts, knows, fun _ _ => rfl, rfl⟩
  | cons a accesses ih =>
    have first := leaves depicts knows (proper a List.mem_cons_self) (known a List.mem_cons_self) p
    obtain ⟨depicts', knows', outside, tags⟩ :=
      ih (fun b mem => proper b (List.mem_cons_of_mem a mem))
        (fun b mem => known b (List.mem_cons_of_mem a mem)) first.depicts first.knows
        (p.shift (a.commands head).length)
    rw [List.flatMap_cons, World.runAll_append]
    exact ⟨depicts', knows', fun q notMemory => (outside q notMemory).trans (first.outside q notMemory),
      tags.trans first.tags⟩

/-- The memory is an array. Accesses through proper variables, run in a cube of barrels that hold zero,
leave the scores and the words that they leave in an array of zeros; every barrel holds the counts of
its word, and the head stands in the barrel of the address that was taken last. -/
theorem accesses_refine_array {t t' : Session} {memory : Memory}
    (made : perform Memory.create t = (.ok memory, t')) {accesses : List Access}
    (proper : ∀ a ∈ accesses, a.IsProper) :
    ∃ cs, Emits (accesses.forM (Access.emit memory)) () cs (accesses.flatMap Access.constants) ∧
      ∀ (w : World) (p : Site), (w.locate memory.head).isSome →
        w.Knows (accesses.flatMap Access.constants) →
        (∀ q, InMemory q → w.blocks q = some Filling.barrel.block) →
        let start : State := ⟨w.score, fun _ => 0⟩
        let s := effects accesses start
        let w' := w.runAll p cs
        (∀ v ∉ scratch, w'.score v = s.scores v) ∧
        (∀ a, ∃ counts, w'.blocks (Word.site a) = some (.barrel counts) ∧
          counts = .ofNumber (Word.score (s.cells a)) ∧
          counts.toNumber = .ok (Word.score (s.cells a))) ∧
        (∀ q, ¬ InMemory q → w'.blocks q = w.blocks q) ∧
        w'.entities.map Being.tag = w.entities.map Being.tag ∧
        ∀ before last, accesses = before ++ [last] →
          let n := last.address (effects before start)
          w'.Stands memory.head (Word.site (Word.ofScore n)) ∧
            (0 ≤ n.toInt → w'.Stands memory.head (Layout.cell n).site) := by
  obtain ⟨head, rfl⟩ := Memory.ensures_create t memory t' made
  refine ⟨_, emits_forM head accesses, fun w p stands knows zeroed => ?_⟩
  have depicts : Depicts head w ⟨w.score, fun _ => 0⟩ := by
    refine ⟨⟨stands, fun a => ?_⟩, fun _ _ => rfl⟩
    rw [zeroed _ (Word.inMemory_site a), Word.counts_zero]
    rfl
  have known (a : Access) (mem : a ∈ accesses) : a.constants ⊆ accesses.flatMap Access.constants :=
    fun k inside => List.mem_flatMap.2 ⟨a, mem, inside⟩
  obtain ⟨after, -, outside, tags⟩ := depicts_effects proper known depicts knows p
  refine ⟨after.scores, fun a => ⟨_, after.cells a, rfl, Word.toNumber_counts _⟩, outside, tags, ?_⟩
  rintro before last rfl
  obtain ⟨between, knows', -, -⟩ := depicts_effects
    (fun a (mem : a ∈ before) => proper a (List.mem_append_left _ mem))
    (fun a mem => known a (List.mem_append_left _ mem)) depicts knows p
  have step := leaves between knows' (proper last (by simp)) (known last (by simp))
    (p.shift (before.flatMap (Access.commands head)).length)
  have reached := step.stands
  rw [← World.runAll_append] at reached
  rw [List.flatMap_append, List.flatMap_singleton]
  exact ⟨reached, fun nonneg => Word.site_cell nonneg ▸ reached⟩

/-! A number that has no word of its own, at an address that is negative, and the top of a stack. -/

def index : Variable := ⟨"index"⟩

def number : Variable := ⟨"number"⟩

def found : Variable := ⟨"found"⟩

def wrapped : List Access :=
  [.store index number, .push found number, .pop found found, .load index number]

def wrappedHead : Entity := { kind := Entity.marker, tag := "e0" }

def wrappedWorld : World where
  blocks p := if 128 ≤ p.y then some Filling.barrel.block else none
  scores := (List.lookup · ([(index, -1), (number, 5000), (found, -2147483648)]
    ++ storeConstants.map fun k => (constantNamed k, k)))
  entities := [⟨wrappedHead.tag, ⟨0, 0, 0⟩⟩]

theorem accesses_refine_array_wrapped :
    ∃ t' cs, perform (Memory.create : EmitM Memory) {} = (.ok (standard wrappedHead), t') ∧
      (∀ a ∈ wrapped, a.IsProper) ∧
      Emits (wrapped.forM (Access.emit (standard wrappedHead))) () cs
        (wrapped.flatMap Access.constants) ∧
      (wrappedWorld.locate wrappedHead).isSome ∧
      wrappedWorld.Knows (wrapped.flatMap Access.constants) ∧
      (∀ q, InMemory q → wrappedWorld.blocks q = some Filling.barrel.block) ∧
      (wrappedWorld.runAll ⟨0, 0, 0⟩ cs).score number = 904 ∧
      (wrappedWorld.runAll ⟨0, 0, 0⟩ cs).score found = 904 := by
  have words : ∀ a ∈ wrapped, (∀ v ∈ a.operands, v ∉ scratch) ∧ ∀ v ∈ a.writes, v.isWord := by
    decide
  have proper : ∀ a ∈ wrapped, a.IsProper := fun a mem =>
    ⟨(words a mem).1, fun v written => v.isForeign_of_isWord ((words a mem).2 v written)⟩
  have made : perform (Memory.create : EmitM Memory) {} =
      (.ok (standard wrappedHead), (perform (Memory.create : EmitM Memory) {}).2) := by
    decide +kernel
  have stands : (wrappedWorld.locate wrappedHead).isSome := by decide
  have zeroed : ∀ q, InMemory q → wrappedWorld.blocks q = some Filling.barrel.block :=
    fun q inside => if_pos inside.2.1.1
  have known : ((wrapped.flatMap Access.constants).all fun k =>
      wrappedWorld.score (constantNamed k) == k) = true := by decide
  have knows : wrappedWorld.Knows (wrapped.flatMap Access.constants) := fun k mem =>
    beq_iff_eq.1 (List.all_eq_true.1 known k mem)
  obtain ⟨cs, emits, runs⟩ := accesses_refine_array made proper
  refine ⟨_, cs, made, proper, emits, stands, knows, zeroed, ?_⟩
  obtain ⟨scores, -⟩ := runs wrappedWorld ⟨0, 0, 0⟩ stands knows zeroed
  rw [scores number (by decide), scores found (by decide)]
  decide +kernel

end Access

end Memory

end BlockComputer.Machine
