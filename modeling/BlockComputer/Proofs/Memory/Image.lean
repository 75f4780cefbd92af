import BlockComputer.Proofs.Machine.Booting
import BlockComputer.Proofs.Memory.Array

/-!
The image of a program in the memory.

Preloading writes two counts for each word, in the initialization, and nothing else. The barrels that it
writes to are those of the first words; they are all different and all inside the memory, and the others
keep what they hold. In a memory of zeros the program is then what a load finds at each address.
-/

namespace BlockComputer.Machine

theorem site_cell_ofNat (a : Word) : (Layout.cell (Int32.ofNat a.val)).site = Word.site a := by
  have nonneg : 0 ≤ (Word.score a).toInt := by
    rw [Word.toInt_score]
    exact Int.natCast_nonneg _
  rw [← Word.score, Word.site_cell nonneg, Word.ofScore_score]

theorem isWithin_site (a : Word) : (Word.site a).IsWithin Layout.memoryFirst.site Layout.memoryLast.site :=
  (isWithin_memory_iff _ ⟨0, 0, 0⟩).2 (Word.inMemory_site a)

theorem counts_programImage (program : List UInt16) (a : Word) :
    Word.counts (programImage program a) = .ofNumber (Int32.ofNat (program.getD a.val 0).toNat) :=
  Word.counts_ofScore _

theorem score_programImage (program : List UInt16) (a : Word) :
    Word.score (programImage program a) = Int32.ofNat ((program.getD a.val 0).toNat % 4096) := by
  have small := (program.getD a.val 0).toNat_lt
  have number : (Int32.ofNat (program.getD a.val 0).toNat).toInt = (program.getD a.val 0).toNat :=
    Int32.toInt_ofNat_of_lt (by omega)
  rw [programImage, Word.score_ofScore, number, ← Int32.ofInt_eq_ofNat, Int.natCast_emod]
  rfl

theorem exists_blocks_runAll {cs : List Command} (counts : ∀ c ∈ cs, ∃ target n, c = .setCount target n)
    (p : Site) (w : World) : ∃ blocks, w.runAll p cs = { w with blocks } := by
  induction cs generalizing p w with
  | nil => exact ⟨_, rfl⟩
  | cons c cs ih =>
    obtain ⟨first, others⟩ := List.forall_mem_cons.1 counts
    obtain ⟨target, n, rfl⟩ := first
    have one : ∃ blocks, (Command.setCount target n).after p.centre w = { w with blocks } := by
      simp only [Command.after, Command.run]
      split
      · unfold World.setCount
        split <;> exact ⟨_, rfl⟩
      · exact ⟨_, rfl⟩
    obtain ⟨blocks, here⟩ := one
    rw [World.runAll_cons, here]
    exact ih others _ _

def wordAt (program : List UInt16) (address : Int32) : Int32 :=
  Int32.ofNat ((program.getD (address.toInt % 4096).toNat 0).toNat % 4096)

/-- In a memory that holds an image a load finds the word of the image, whatever number stands for its
address. -/
theorem score_load_image {program : List UInt16} {head : Entity} {w : World}
    (holds : Memory.Holds head w (programImage program)) (knows : w.Knows Memory.loadConstants)
    {index target : Variable} (proper : (Memory.Access.load index target).IsProper) (p : Site) :
    (w.runAll p ((Memory.standard head).loadCommands index target)).score target =
      wordAt program (w.score index) := by
  have apart : index ∉ Memory.scratch := proper.apart index (by simp [Memory.Access.operands])
  have free : target ∉ Memory.scratch := proper.apart target (by simp [Memory.Access.operands])
  have foreign : target.IsForeign := proper.foreign target (by simp [Memory.Access.writes])
  obtain ⟨u, -, -, ran⟩ := Memory.runAll_load holds knows apart free foreign p
  rw [ran, World.score_setScore_self, score_programImage]
  rfl

/-- A load finds the words of a program in every world that has these blocks in the memory, the head and
the numbers that a load works with. -/
structure LoadsFind (memory : Memory) (program : List UInt16) (blocks : Site → Option Block) : Prop where
  loads : ∀ index target, (Memory.Access.load index target).IsProper →
    ∃ ds, Emits (memory.load index target) () ds Memory.loadConstants ∧
      ∀ (p : Site) (w : World), (w.locate memory.head).isSome → w.Knows Memory.loadConstants →
        (∀ q, InMemory q → w.blocks q = blocks q) →
        (w.runAll p ds).score target = wordAt program (w.score index)

section run

variable {program : List UInt16} (fits : program.length ≤ 4096) {p : Site} {w : World}
  (zeroed : ∀ q, InMemory q → w.blocks q = some Filling.barrel.block)

include fits zeroed

theorem blocks_preload_site (a : Word) : (w.runAll p (Memory.preloadCommands program)).blocks (Word.site a) =
    some (.barrel (Word.counts (programImage program a))) :=
  blocks_preload fits (fun b => zeroed _ (Word.inMemory_site b)) p a

theorem blocks_preload_of_ne {q : Site}
    (other : ∀ i < program.length, q ≠ (Layout.cell (Int32.ofNat i)).site) :
    (w.runAll p (Memory.preloadCommands program)).blocks q = w.blocks q := by
  by_cases inside : InMemory q
  · obtain ⟨a, rfl⟩ := Word.exists_site_eq inside
    have behind : ¬ a.val < program.length := fun less => other a.val less (site_cell_ofNat a).symm
    have zeros (b : Word) : w.blocks (Word.site b) = some (.barrel ⟨1, 1⟩) := zeroed _ (Word.inMemory_site b)
    rw [blocks_preload_over fits zeros p a, if_neg behind, zeros]
  · exact blocks_runAll_of_not_inMemory (initializes_preload fits) p w inside

theorem loadsFind_preload {t t' : Session} {memory : Memory}
    (made : perform Memory.create t = (.ok memory, t')) :
    LoadsFind memory program (w.runAll p (Memory.preloadCommands program)).blocks := by
  obtain ⟨head, rfl⟩ := Memory.ensures_create t memory t' made
  refine ⟨fun index target proper => ⟨_, Memory.emits_load _ index target, fun p' u here knows same => ?_⟩⟩
  have holds : Memory.Holds head u (programImage program) :=
    ⟨here, fun a => (same _ (Word.inMemory_site a)).trans (blocks_preload_site fits zeroed a)⟩
  exact score_load_image holds knows proper p'

end run

/-- A program that fits is preloaded. Two commands for each word are put behind the initialization, and
nothing else is changed. In a memory of zeros they leave the counts of each word in its own barrel, and
every other block and every score and entity as it was; so a load finds the words of the program, and zero
behind them. A longer program is refused. -/
theorem preload_leaves_image (program : List UInt16) :
    (program.length ≤ 4096 → ∃ cs,
      (∀ s : Session, perform (Memory.preload program) s = (.ok (), s.extendInit cs)) ∧
      cs.length = 2 * program.length ∧
      (∀ i < program.length, (Layout.cell (Int32.ofNat i)).site.IsWithin
        Layout.memoryFirst.site Layout.memoryLast.site) ∧
      (∀ i < program.length, ∀ j < program.length,
        (Layout.cell (Int32.ofNat i)).site = (Layout.cell (Int32.ofNat j)).site → i = j) ∧
      ∀ (p : Site) (w : World), (∀ q, InMemory q → w.blocks q = some (.barrel ⟨1, 1⟩)) →
        ∃ blocks, w.runAll p cs = { w with blocks } ∧
          (∀ (i : Nat) (_ : i < program.length), blocks (Layout.cell (Int32.ofNat i)).site =
            some (.barrel (.ofNumber (Int32.ofNat program[i].toNat)))) ∧
          (∀ q, (∀ i < program.length, q ≠ (Layout.cell (Int32.ofNat i)).site) → blocks q = w.blocks q) ∧
          ∀ (t t' : Session) (memory : Memory), perform Memory.create t = (.ok memory, t') →
            LoadsFind memory program blocks) ∧
    (4096 < program.length → ∀ s : Session, perform (Memory.preload program) s =
      (.error (.error (.programTooLong program.length)), s)) ∧
    (Error.programTooLong program.length).message =
      s!"Invalid operand 'program of {program.length} words does not fit in memory'" := by
  refine ⟨fun fits => ?_, fun long s => perform_preload_of_long long s, rfl⟩
  have cell (i : Nat) (less : i < program.length) :
      ∃ a : Word, a.val = i ∧ (Layout.cell (Int32.ofNat i)).site = Word.site a :=
    ⟨⟨i, by omega⟩, rfl, site_cell_ofNat ⟨i, by omega⟩⟩
  refine ⟨Memory.preloadCommands program, perform_preload fits, length_preloadCommands program,
    fun i less => ?_, fun i less j less' same => ?_, fun p w zeroed => ?_⟩
  · obtain ⟨a, -, site⟩ := cell i less
    exact site ▸ isWithin_site a
  · obtain ⟨a, rfl, site⟩ := cell i less
    obtain ⟨b, rfl, site'⟩ := cell j less'
    rw [site, site'] at same
    rw [Word.site_injective same]
  · obtain ⟨blocks, ran⟩ :=
      exists_blocks_runAll (fun c (mem : c ∈ Memory.preloadCommands program) => exists_of_mem_preload mem) p w
    have same : (w.runAll p (Memory.preloadCommands program)).blocks = blocks := by rw [ran]
    refine ⟨blocks, ran, fun i less => ?_, fun q other => ?_, fun t t' memory made => ?_⟩
    · obtain ⟨a, rfl, site⟩ := cell i less
      rw [← same, site, blocks_preload_site fits zeroed, counts_programImage, List.getD_eq_getElem?_getD,
        List.getElem?_eq_getElem less, Option.getD_some]
    · rw [← same, blocks_preload_of_ne fits zeroed other]
    · exact same ▸ loadsFind_preload fits zeroed made

/-- Two words, the second of which is reduced, and a load of that one. -/
theorem preload_leaves_image_second :
    ∃ cs ds, perform (Memory.preload [65, 5000]) {} = (.ok (), ({} : Session).extendInit cs) ∧
      (∀ q, InMemory q → Memory.Access.wrappedWorld.blocks q = some (.barrel ⟨1, 1⟩)) ∧
      Emits ((Memory.standard Memory.Access.wrappedHead).load ⟨"index"⟩ ⟨"found"⟩) () ds
        Memory.loadConstants ∧
      let w := Memory.Access.wrappedWorld.runAll ⟨0, 0, 0⟩ cs
      w.blocks ⟨1, 128, 0⟩ = some (.barrel ⟨15, 9⟩) ∧
      ((w.setScore ⟨"index"⟩ 1).runAll ⟨0, 0, 0⟩ ds).score ⟨"found"⟩ = 904 := by
  have zeroed : ∀ q, InMemory q → Memory.Access.wrappedWorld.blocks q = some (.barrel ⟨1, 1⟩) :=
    fun q inside => if_pos inside.2.1.1
  have made : perform (Memory.create : EmitM Memory) {} =
      (.ok (Memory.standard Memory.Access.wrappedHead), (perform (Memory.create : EmitM Memory) {}).2) := by
    decide +kernel
  have proper : (Memory.Access.load ⟨"index"⟩ ⟨"found"⟩).IsProper :=
    ⟨by decide, fun v written => v.isForeign_of_isWord (List.mem_singleton.1 written ▸ by decide)⟩
  have known : (Memory.loadConstants.all fun k =>
      Memory.Access.wrappedWorld.score (constantNamed k) == k) = true := by decide
  obtain ⟨cs, preloads, -, -, -, runs⟩ := (preload_leaves_image [65, 5000]).1 (by decide)
  obtain ⟨blocks, ran, words, -, loads⟩ := runs ⟨0, 0, 0⟩ Memory.Access.wrappedWorld zeroed
  obtain ⟨ds, emits, finds⟩ := (loads _ _ _ made).loads _ _ proper
  refine ⟨cs, ds, preloads {}, zeroed, emits, ?_⟩
  rw [ran]
  refine ⟨(words 1 (by decide)).trans (by decide), ?_⟩
  let w : World := { Memory.Access.wrappedWorld with blocks }
  have knows : w.Knows Memory.loadConstants := fun k mem => beq_iff_eq.1 (List.all_eq_true.1 known k mem)
  have index : Variable.IsForeign ⟨"index"⟩ := Variable.isForeign_of_isWord (by decide)
  have here : (Memory.Access.wrappedWorld.locate Memory.Access.wrappedHead).isSome := by decide
  rw [finds ⟨0, 0, 0⟩ (w.setScore ⟨"index"⟩ 1) here (knows.setForeign index 1) fun _ _ => rfl,
    World.score_setScore_self]
  decide

end BlockComputer.Machine
