import BlockComputer.Proofs.Machine.Access
import BlockComputer.Proofs.Machine.Parts
import BlockComputer.Proofs.Memory.Word
import BlockComputer.Proofs.Relocation.Anchor
import BlockComputer.Proofs.World.Slicing

/-!
The head and the barrel that it is sent to.

Whatever the score of an address is, the head ends up in the barrel of its word. A load puts the word of
that barrel into a score and a store puts the counts of a score's word into the barrel; apart from that
both change the scores that they work in and nothing else.
-/

namespace BlockComputer.Machine

namespace Memory

def axes : List Variable :=
  [⟨"mem_index_x"⟩, ⟨"mem_index_y"⟩, ⟨"mem_index_z"⟩]

def scratch : List Variable :=
  axes ++ [⟨"mem_high"⟩, ⟨"mem_low"⟩]

def seekConstants : List Int32 :=
  [16, 16, 16, 256, 16]

def loadConstants : List Int32 :=
  seekConstants ++ [64]

def storeConstants : List Int32 :=
  [4096, 64, 64] ++ seekConstants

theorem isForeign_of_mem_scratch {v : Variable} (mem : v ∈ scratch) : v.IsForeign := by
  refine Variable.isForeign_of_isWord ?_
  revert v
  decide

theorem knows_of_sameBut {w w' : World} {ks : List Int32} (knows : w.Knows ks)
    (same : w.SameBut scratch w') : w'.Knows ks := by
  intro k mem
  have other : constantNamed k ∉ scratch := fun inside => isForeign_of_mem_scratch inside k rfl
  rw [same.score _ other, knows k mem]

/-- The head exists, and the barrels hold these words. -/
structure Holds (head : Entity) (w : World) (cells : Word → Word) : Prop where
  head : (w.locate head).isSome
  cells : ∀ a, w.blocks (Word.site a) = some (.barrel (Word.counts (cells a)))

section seek

variable {head : Entity} {w : World} {index : Variable}

theorem sameBut_seek (head : Entity) (index : Variable) (p : Site) (w : World) :
    w.SameBut axes (w.runAll p ((standard head).seekCommands index)) :=
  World.sameBut_of_staysIn rfl p w

/-- The scores of an address hold the three parts of a number, the second one from the height on at which
the memory begins. -/
def addressed (w : World) (n : Int) : World :=
  (((w.setScore ⟨"mem_index_x"⟩ (Int32.ofInt (n / 2 ^ 0 % 2 ^ 4))).setScore ⟨"mem_index_y"⟩
    (Int32.ofInt (n / 2 ^ 4 % 2 ^ 4))).setScore ⟨"mem_index_z"⟩ (Int32.ofInt (n / 2 ^ 8 % 2 ^ 4))).setScore
      ⟨"mem_index_y"⟩ (Int32.ofInt (n / 2 ^ 4 % 2 ^ 4) + Int32.ofInt 128)

theorem siteOf_addressed (w : World) (n : Int32) :
    (addressed w n.toInt).siteOf (standardVector "mem_index") = Word.site (Word.ofScore n) := by
  have low (k : Int) : (Int32.ofInt (k % 2 ^ 4)).toInt = k % 2 ^ 4 :=
    Int32.toInt_ofInt_of_le (by omega) (by omega)
  have x : ((addressed w n.toInt).score ⟨"mem_index_x"⟩).toInt = n.toInt % 16 := by
    rw [addressed, World.score_setScore_of_ne _ (by decide), World.score_setScore_of_ne _ (by decide),
      World.score_setScore_of_ne _ (by decide), World.score_setScore_self, low]
    omega
  have y : ((addressed w n.toInt).score ⟨"mem_index_y"⟩).toInt = n.toInt / 16 % 16 + 128 := by
    rw [addressed, World.score_setScore_self, ← Int32.ofInt_add,
      Int32.toInt_ofInt_of_le (by omega) (by omega)]
    omega
  have z : ((addressed w n.toInt).score ⟨"mem_index_z"⟩).toInt = n.toInt / 256 % 16 := by
    rw [addressed, World.score_setScore_of_ne _ (by decide), World.score_setScore_self, low]
    omega
  have residue := Word.val_ofScore n
  change Site.mk (World.score _ ⟨"mem_index_x"⟩).toInt (World.score _ ⟨"mem_index_y"⟩).toInt
    (World.score _ ⟨"mem_index_z"⟩).toInt = _
  rw [x, y, z, Word.site, Site.mk.injEq]
  omega

/-- The three parts of an address are sliced out of the index, and then the head is moved. -/
theorem runAll_seek (knows : w.Knows seekConstants) (head : Entity) (apart : index ∉ scratch) (p : Site) :
    w.runAll p ((standard head).seekCommands index) =
      (addressed w (w.score index).toInt).runAll (p.shift 9)
        (Piece.moveCommands head (standardVector "mem_index")) := by
  let x : Variable := ⟨"mem_index_x"⟩
  let y : Variable := ⟨"mem_index_y"⟩
  let z : Variable := ⟨"mem_index_z"⟩
  let n := (w.score index).toInt
  have slices : (standard head).seekCommands index =
      x.sliceOf index 0 4 false ++ (y.sliceOf index 4 4 false ++ (z.sliceOf index 8 4 false ++
        (y.addCommand 128 :: Piece.moveCommands head (standardVector "mem_index")))) := rfl
  have sliced {u : World} (knows : u.Knows seekConstants) {v : Variable} (mem : v ∈ scratch)
      {skip : Nat} (hskip : skip ≤ 30)
      (known : Variable.sliceConstants skip 4 false ⊆ seekConstants) (q : Site) :=
    World.runAll_sliceOf_floor (u := index) hskip (show 4 ≤ 30 by decide) (knows.mono known)
      (isForeign_of_mem_scratch mem) q
  have kept {u : World} {v : Variable} (mem : v ∈ scratch) (m : Int32) :
      (u.setScore v m).score index = u.score index :=
    World.score_setScore_of_ne _ (fun same : index = v => apart (same ▸ mem)) _
  let w₁ := w.setScore x (Int32.ofInt (n / 2 ^ 0 % 2 ^ 4))
  let w₂ := w₁.setScore y (Int32.ofInt (n / 2 ^ 4 % 2 ^ 4))
  let w₃ := w₂.setScore z (Int32.ofInt (n / 2 ^ 8 % 2 ^ 4))
  have knows₁ : w₁.Knows seekConstants := knows.setForeign (isForeign_of_mem_scratch (by decide)) _
  have knows₂ : w₂.Knows seekConstants := knows₁.setForeign (isForeign_of_mem_scratch (by decide)) _
  have index₁ : w₁.score index = w.score index := kept (by decide) _
  have index₂ : w₂.score index = w.score index := (kept (by decide) _).trans index₁
  have height : w₃.score y = Int32.ofInt (n / 2 ^ 4 % 2 ^ 4) := by
    rw [World.score_setScore_of_ne _ (by decide), World.score_setScore_self]
  rw [slices, World.runAll_append, sliced knows (by decide) (by decide) (by decide),
    World.runAll_append, sliced knows₁ (by decide) (by decide) (by decide), index₁,
    World.runAll_append, sliced knows₂ (by decide) (by decide) (by decide), index₂,
    World.runAll_cons, Variable.after_addCommand, height]
  rfl

theorem stands_seek (knows : w.Knows seekConstants) (here : (w.locate head).isSome)
    (apart : index ∉ scratch) (p : Site) :
    (w.runAll p ((standard head).seekCommands index)).Stands head
      (Word.site (Word.ofScore (w.score index))) := by
  have moved := Piece.stands_moveCommands (w := addressed w (w.score index).toInt) (e := head) here
    (standardVector "mem_index") (p.shift 9)
  rwa [siteOf_addressed, ← runAll_seek knows head apart] at moved

end seek

section barrel

variable {m : Memory} {w : World} {p : Site}

theorem after_readCommand (stands : w.Stands m.head p) {slot : Nat} {n : Int32}
    (count : w.count? p slot = some n) (v : Variable) (origin : Point) :
    (m.readCommand v slot).after origin w = w.setScore v n := by
  obtain ⟨q, here, rfl⟩ := stands
  rw [readCommand, Command.after, Command.run_execute]
  simp [Qualifier.enter, here, Command.run, Command.after, headSlot, StoreTarget.destination?,
    Pending.settle, World.keep, count]

theorem after_writeCommand (stands : w.Stands m.head p) {slot : Nat} (small : slot ∈ [0, 1])
    (v : Variable) (origin : Point) :
    (m.writeCommand v slot).after origin w = w.setCount p slot (w.score v) := by
  obtain ⟨q, here, rfl⟩ := stands
  have found : ([0, 1].find? fun index => Slot.path ⟨.here, index⟩ == Slot.path ⟨.here, slot⟩) =
      some slot := by
    revert slot
    decide
  rw [writeCommand, Command.after, Command.run_execute]
  simp [Qualifier.enter, here, Command.run, Command.after, headSlot, StoreTarget.slot,
    StoreTarget.destination?, found, Pending.settle, World.keep]
  rfl

end barrel

section load

variable {head : Entity} {w : World} {cells : Word → Word} {index target : Variable}

theorem runAll_read {b : Word} {p : Site} (stands : w.Stands head p)
    (barrel : w.blocks p = some (.barrel (Word.counts b))) (knows : w.Knows loadConstants)
    (free : target ∉ scratch) (foreign : target.IsForeign) (q : Site) :
    w.runAll q [(standard head).readCommand ⟨"mem_high"⟩ 0, (standard head).readCommand ⟨"mem_low"⟩ 1,
        .operateScore target .set ⟨"mem_high"⟩, target.addCommand (-1),
        .operateScore target .mul (constantNamed 64), .operateScore target .add ⟨"mem_low"⟩,
        target.addCommand (-1)] =
      ((w.setScore ⟨"mem_high"⟩ (Word.counts b).high).setScore ⟨"mem_low"⟩
        (Word.counts b).low).setScore target (Word.score b) := by
  let u := w.setScore ⟨"mem_high"⟩ (Word.counts b).high
  let v := u.setScore ⟨"mem_low"⟩ (Word.counts b).low
  have notLow : (⟨"mem_low"⟩ : Variable) ≠ target := fun same => free (same ▸ by decide)
  have knows' : v.Knows loadConstants :=
    (knows.setForeign (isForeign_of_mem_scratch (by decide)) _).setForeign
      (isForeign_of_mem_scratch (by decide)) _
  have high : v.score ⟨"mem_high"⟩ = (Word.counts b).high := by
    rw [World.score_setScore_of_ne _ (by decide), World.score_setScore_self]
  have low (n : Int32) : (v.setScore target n).score ⟨"mem_low"⟩ = (Word.counts b).low := by
    rw [World.score_setScore_of_ne _ notLow, World.score_setScore_self]
  have readHigh (o : Point) : ((standard head).readCommand ⟨"mem_high"⟩ 0).after o w = u :=
    after_readCommand (m := standard head) stands (by rw [World.count?, barrel]; rfl) _ _
  have readLow (o : Point) : ((standard head).readCommand ⟨"mem_low"⟩ 1).after o u = v :=
    after_readCommand (m := standard head) (w := u) stands
      (by rw [World.count?, World.blocks_setScore, barrel]; rfl) _ _
  rw [World.runAll_cons, readHigh, World.runAll_cons, readLow,
    World.runAll_cons, Command.after_operateScore _ _ _ _ (by decide), high,
    World.runAll_cons, Variable.after_addCommand_setScore,
    World.runAll_cons, knows'.after_operateScore_setScore (by decide) (by decide) foreign,
    World.runAll_cons, Command.after_operateScore _ _ _ _ (by decide), low,
    World.score_setScore_self, World.setScore_setScore,
    World.runAll_cons, Variable.after_addCommand_setScore, World.runAll_nil]
  exact congrArg (v.setScore target) (Word.score_of_counts b)

theorem runAll_load (holds : Holds head w cells) (knows : w.Knows loadConstants) (apart : index ∉ scratch)
    (free : target ∉ scratch) (foreign : target.IsForeign) (p : Site) :
    ∃ u, w.SameBut scratch u ∧ u.Stands head (Word.site (Word.ofScore (w.score index))) ∧
      w.runAll p ((standard head).loadCommands index target) =
        u.setScore target (Word.score (cells (Word.ofScore (w.score index)))) := by
  have moved := sameBut_seek head index p w
  have stands := stands_seek (knows.mono (by decide)) holds.head apart p
  rw [loadCommands, World.runAll_append]
  generalize w.runAll p ((standard head).seekCommands index) = u at moved stands ⊢
  have barrel := holds.cells (Word.ofScore (w.score index))
  rw [← moved.blocks] at barrel
  have sought : w.SameBut scratch u := moved.mono (by decide)
  refine ⟨_, ?_, ?_, runAll_read stands barrel (knows_of_sameBut knows sought) free foreign _⟩
  · refine (sought.trans ((World.SameBut.setScore u _ _).mono ?_)).trans
      ((World.SameBut.setScore _ _ _).mono ?_)
    · decide
    · decide
  · simpa using stands

end load

section store

variable {head : Entity} {w : World} {cells : Word → Word} {index source : Variable}

theorem sameBut_count (head : Entity) (source : Variable) (p : Site) (w : World) :
    w.SameBut [⟨"mem_high"⟩, ⟨"mem_low"⟩] (w.runAll p ((standard head).countCommands source)) :=
  World.sameBut_of_staysIn rfl p w

theorem score_count (head : Entity) (knows : w.Knows storeConstants) (source : Variable) (p : Site) :
    (w.runAll p ((standard head).countCommands source)).score ⟨"mem_high"⟩ =
        (Counts.ofNumber (w.score source)).high ∧
      (w.runAll p ((standard head).countCommands source)).score ⟨"mem_low"⟩ =
        (Counts.ofNumber (w.score source)).low := by
  let high : Variable := ⟨"mem_high"⟩
  let low : Variable := ⟨"mem_low"⟩
  let residue := (w.score source).toInt % 4096
  -- the high count's score holds the whole residue until the low count has been cut out of it
  let w₁ := w.setScore high (Int32.ofInt residue)
  let w₂ := w₁.setScore low (Int32.ofInt (residue % 64 + 1))
  have foreign : high.IsForeign := isForeign_of_mem_scratch (by decide)
  have foreign' : low.IsForeign := isForeign_of_mem_scratch (by decide)
  have knows₁ : w₁.Knows storeConstants := knows.setForeign foreign _
  have knows₂ : w₂.Knows storeConstants := knows₁.setForeign foreign' _
  have small : (Int32.ofInt residue).toInt = residue :=
    Int32.toInt_ofInt_of_le (by omega) (by omega)
  have reduced : ScoreOp.mod.apply (w.score source) Counts.word = Int32.ofInt residue :=
    ScoreOp.apply_mod_of_pos _ _ (by decide)
  have lower : ScoreOp.mod.apply (Int32.ofInt residue) 64 + Int32.ofInt 1 =
      Int32.ofInt (residue % 64 + 1) := by
    rw [ScoreOp.apply_mod_of_pos _ _ (by decide), small, ← Int32.ofInt_add]
    rfl
  have upper : ScoreOp.div.apply (Int32.ofInt residue) 64 + Int32.ofInt 1 =
      Int32.ofInt (residue / 64 + 1) := by
    rw [ScoreOp.apply_div_of_pos _ _ (by decide), small, ← Int32.ofInt_add]
    rfl
  have high₁ : w₁.score high = Int32.ofInt residue := World.score_setScore_self _ _ _
  have high₂ : w₂.score high = Int32.ofInt residue := by
    rw [World.score_setScore_of_ne _ (by decide), high₁]
  have ran : w.runAll p ((standard head).countCommands source) =
      w₂.setScore high (Int32.ofInt (residue / 64 + 1)) := by
    have split : (standard head).countCommands source =
        [.operateScore high .set source, .operateScore high .mod (constantNamed Counts.word),
          .operateScore low .set high, .operateScore low .mod (constantNamed 64), low.addCommand 1,
          .operateScore high .div (constantNamed 64), high.addCommand 1] := rfl
    rw [split, World.runAll_cons, Command.after_operateScore _ _ _ _ (by decide), ScoreOp.apply,
      World.runAll_cons, knows.after_operateScore_setScore (by decide) (by decide) foreign, reduced,
      World.runAll_cons, Command.after_operateScore _ _ _ _ (by decide), high₁, ScoreOp.apply,
      World.runAll_cons, knows₁.after_operateScore_setScore (by decide) (by decide) foreign',
      World.runAll_cons, Variable.after_addCommand_setScore, lower,
      World.runAll_cons, knows₂.after_operateScore (by decide) (by decide), high₂,
      World.runAll_cons, Variable.after_addCommand_setScore, upper, World.runAll_nil]
  rw [ran]
  refine ⟨World.score_setScore_self _ _ _, ?_⟩
  exact (World.score_setScore_of_ne _ (by decide) _).trans (World.score_setScore_self _ _ _)

theorem runAll_write {c : Counts} {p : Site} (stands : w.Stands head p)
    (barrel : w.blocks p = some (.barrel c)) (q : Site) :
    w.runAll q [(standard head).writeCommand ⟨"mem_high"⟩ 0,
        (standard head).writeCommand ⟨"mem_low"⟩ 1] =
      w.setBlock p (.barrel ⟨w.score ⟨"mem_high"⟩, w.score ⟨"mem_low"⟩⟩) := by
  have once {u : World} {d : Counts} (barrel : u.blocks p = some (.barrel d)) (slot : Nat)
      (n : Int32) : u.setCount p slot n = u.setBlock p (.barrel (d.set slot n)) := by
    rw [World.setCount, barrel]
  let u := w.setBlock p (.barrel (c.set 0 (w.score ⟨"mem_high"⟩)))
  have between : u.blocks p = some (.barrel (c.set 0 (w.score ⟨"mem_high"⟩))) :=
    Function.update_self _ _ _
  have stands' : u.Stands head p := stands
  rw [World.runAll_cons, after_writeCommand (m := standard head) stands (by decide), once barrel,
    World.runAll_cons, after_writeCommand (m := standard head) stands' (by decide), once between,
    World.runAll_nil]
  simp [World.setBlock, u, Counts.set, World.score]

theorem runAll_store (holds : Holds head w cells) (knows : w.Knows storeConstants)
    (apart : index ∉ scratch) (source : Variable) (p : Site) :
    ∃ u, w.SameBut scratch u ∧ u.Stands head (Word.site (Word.ofScore (w.score index))) ∧
      w.runAll p ((standard head).storeCommands index source) =
        u.setBlock (Word.site (Word.ofScore (w.score index)))
          (.barrel (Word.counts (Word.ofScore (w.score source)))) := by
  rw [storeCommands, World.runAll_append, World.runAll_append]
  have counted := sameBut_count head source p w
  obtain ⟨high, low⟩ := score_count head knows source p
  generalize w.runAll p ((standard head).countCommands source) = v at counted high low ⊢
  have knows' : v.Knows storeConstants := knows_of_sameBut knows (counted.mono (by decide))
  have same : v.score index = w.score index :=
    counted.score _ fun inside => apart (List.mem_append_right _ inside)
  have stands := stands_seek (knows'.mono (by decide)) (counted.isSome_locate head ▸ holds.head) apart
    (p.shift ((standard head).countCommands source).length)
  rw [same] at stands
  have moved := sameBut_seek head index (p.shift ((standard head).countCommands source).length) v
  generalize World.runAll _ v ((standard head).seekCommands index) = u at moved stands ⊢
  have barrel := holds.cells (Word.ofScore (w.score index))
  rw [← counted.blocks, ← moved.blocks] at barrel
  refine ⟨u, ?_, stands, ?_⟩
  · exact (counted.mono (by decide)).trans (moved.mono (by decide))
  · have written := runAll_write stands barrel
      (p.shift ((standard head).countCommands source ++ (standard head).seekCommands index).length)
    rw [moved.score _ (by decide), moved.score _ (by decide), high, low] at written
    rw [Word.counts_ofScore]
    exact written

end store

end Memory

end BlockComputer.Machine
