import BlockComputer.Proofs.Machine.Dispatch

/-!
What decoding computes.

Each list of decoding commands is told as the scores that it sets, for every word that reaches it.
-/

namespace BlockComputer

theorem Command.settled_of_all {condition : Condition} {cs : List Command}
    (spared : cs.all (fun c => c.isScore && condition.reads.all fun v => decide (v ∉ c.writes)) = true) :
    ∀ c ∈ cs, c.Settled condition := by
  intro c mem
  have here := List.all_eq_true.1 spared c mem
  rw [Bool.and_eq_true, List.all_eq_true] at here
  exact settled_of_spares here.1 fun v reads => by simpa using here.2 v reads

namespace Machine

def rowOf (n : Nat) : Nat :=
  match n / 1024 with
  | 0 => if n < 896 then n / 64 + 1 else (n - 896) / 8 + 15
  | 1 => if n < 1920 then n / 128 % 8 + 1 else n / 16 % 8 + 1
  | 2 => n / 256 % 4 + 1
  | _ => n / 64 % 16 + 1

def jumpTarget (n : Nat) (instruction constant : Int32) : Int32 :=
  if n < 1920 then instruction + Int32.ofInt ((n : Int).bmod 128)
  else Int32.ofNat (n % 16) * 256 + constant

/-- The slice can be cut out of a word: it is narrow enough, and decoding knows the constants that it
reads. -/
structure CutsWord (v : Variable) (skip length : Nat) (last : Bool) : Prop where
  skip_le : skip ≤ 30
  length_le : length ≤ 30
  word : v.isWord
  known : Variable.sliceConstants skip length last ⊆ decodeConstants

structure Decodes (w : World) (n : Nat) : Prop where
  knows : w.Knows decodeConstants
  opcode : w.score ⟨"opcode"⟩ = Int32.ofNat n

theorem settled_nearSelect : ∀ c ∈ nearSelect, c.Settled belowPages.condition := by
  have plain : ∀ c ∈ [Command.operateScore ⟨"jump_offset"⟩ .set ⟨"opcode"⟩,
      .operateScore ⟨"jump_offset"⟩ .mod (constantNamed 128),
      Variable.addCommand ⟨"jump_offset"⟩ (-128)], c.Settled belowPages.condition :=
    Command.settled_of_all (by decide)
  have offset : ∀ c ∈ jumpOffset, c.Settled belowPages.condition := by
    simp only [List.forall_mem_cons, jumpOffset] at plain ⊢
    exact ⟨plain.1, plain.2.1, plain.2.2.1.guarded offsetNegative, plain.2.2.2⟩
  exact List.forall_mem_append.2 ⟨offset, Command.settled_of_all (by decide)⟩

namespace Decodes

variable {w : World} {n : Nat} (h : Decodes w n)

include h

theorem setScore {v : Variable} (other : v ≠ ⟨"opcode"⟩) (word : v.isWord) (x : Int32) :
    Decodes (w.setScore v x) n :=
  ⟨h.knows.setScore word x, by rw [World.score_setScore_of_ne _ other.symm, h.opcode]⟩

theorem runAll_slice (small : n < 4096) (v : Variable) (skip length : Nat) (last : Bool)
    (cuts : CutsWord v skip length last) (p : Site) :
    w.runAll p (v.sliceOf ⟨"opcode"⟩ skip length last) =
      w.setScore v (Int32.ofNat (sliceValue n skip length last)) :=
  World.runAll_sliceOf (by omega) cuts.skip_le cuts.length_le (h.knows.mono cuts.known) cuts.word h.opcode p

theorem holds_belowUnary (small : n < 4096) : belowUnary.holds w = decide (n < 896) := by
  have bound : unaryBase = Int32.ofNat 896 := rfl
  rw [belowUnary, Branch.holds, Condition.holds_ofComparison, h.opcode, bound]
  simp only [Comparison.holds, Bool.bne_false,
    lt_ofNat_iff (show n < 2 ^ 31 by omega) (show 896 < 2 ^ 31 by decide)]

theorem holds_belowPages (small : n < 4096) : belowPages.holds w = decide (n < 1920) := by
  have bound : pageJumpBase = Int32.ofNat 1920 := rfl
  rw [belowPages, Branch.holds, Condition.holds_ofComparison, h.opcode, bound]
  simp only [Comparison.holds, Bool.bne_false,
    lt_ofNat_iff (show n < 2 ^ 31 by omega) (show 1920 < 2 ^ 31 by decide)]

theorem runAll_decode (small : n < 4096) (p : Site) :
    w.runAll p decode = w.setScore ⟨"dispatch_position_y"⟩ (Int32.ofNat (n / 1024 + 1)) := by
  rw [decode, World.runAll_append, h.runAll_slice small _ _ _ _ ⟨by decide, by decide, by decide, by decide⟩]
  simp [Variable.after_addCommand, sliceValue]

theorem runAll_row (small : n < 4096) (v : Variable) (skip length : Nat)
    (cuts : CutsWord v skip length false) (p : Site) :
    w.runAll p (v.sliceOf ⟨"opcode"⟩ skip length false ++ [v.addCommand 1]) =
      w.setScore v (Int32.ofNat (n / 2 ^ skip % 2 ^ length + 1)) := by
  rw [World.runAll_append, h.runAll_slice small _ _ _ _ cuts]
  simp [Variable.after_addCommand, sliceValue]

theorem runAll_constantSelect (group : n / 1024 = 2) (p : Site) :
    w.runAll p constantSelect =
      (w.setScore ⟨"const_imm"⟩ (Int32.ofNat (n % 256))).setScore ⟨"const_position_z"⟩
        (Int32.ofNat (rowOf n)) := by
  have small : n < 4096 := by omega
  have h' := h.setScore (v := ⟨"const_imm"⟩) (by decide) (by decide) (Int32.ofNat (n % 256))
  have row : n / 2 ^ 8 % 2 ^ 2 + 1 = rowOf n := by simp [rowOf, group]
  rw [constantSelect, List.append_assoc, World.runAll_append,
    h.runAll_slice small _ _ _ _ ⟨by decide, by decide, by decide, by decide⟩]
  have number : sliceValue n 0 8 false = n % 256 := by simp [sliceValue]
  rw [number, h'.runAll_row small _ _ _ ⟨by decide, by decide, by decide, by decide⟩, row]

theorem runAll_cardArgumentSelect (small : n < 4096) (p : Site) :
    w.runAll p cardArgumentSelect = w.setScore ⟨"card_arg"⟩ (Int32.ofNat (n % 64)) := by
  have number : sliceValue n 0 6 false = n % 64 := by simp [sliceValue]
  rw [cardArgumentSelect, h.runAll_slice small _ _ _ _ ⟨by decide, by decide, by decide, by decide⟩, number]

theorem runAll_cardSelect (small : n < 4096) (group : n / 1024 = 3) (p : Site) :
    w.runAll p cardSelect =
      (w.setScore ⟨"card_arg"⟩ (Int32.ofNat (n % 64))).setScore ⟨"card_position_z"⟩
        (Int32.ofNat (rowOf n)) := by
  have h' := h.setScore (v := ⟨"card_arg"⟩) (by decide) (by decide) (Int32.ofNat (n % 64))
  have row : n / 2 ^ 6 % 2 ^ 4 + 1 = rowOf n := by simp [rowOf, group]
  rw [cardSelect, List.append_assoc, World.runAll_append, h.runAll_cardArgumentSelect small,
    h'.runAll_row small _ _ _ ⟨by decide, by decide, by decide, by decide⟩, row]

theorem runAll_unaryRow (small : n < 4096) (high : 896 ≤ n) (p : Site) :
    w.runAll p [.operateScore ⟨"arith_target_z"⟩ .set ⟨"opcode"⟩,
        Variable.addCommand ⟨"arith_target_z"⟩ (-896),
        .operateScore ⟨"arith_target_z"⟩ .div (constantNamed 8),
        Variable.addCommand ⟨"arith_target_z"⟩ 15] =
      w.setScore ⟨"arith_target_z"⟩ (Int32.ofNat ((n - 896) / 8 + 15)) := by
  have less : Int32.ofNat n + Int32.ofInt (-896) = Int32.ofNat (n - 896) := by
    rw [Int32.ofNat_sub _ _ high, Int32.sub_eq_add_neg, Int32.neg_ofNat]
    rfl
  have foreign : Variable.IsForeign ⟨"arith_target_z"⟩ := Variable.isForeign_of_isWord (by decide)
  have set : (Command.operateScore ⟨"arith_target_z"⟩ .set ⟨"opcode"⟩).after p.centre w =
      w.setScore ⟨"arith_target_z"⟩ (Int32.ofNat n) := by
    rw [Command.after_operateScore _ _ _ _ (by decide), h.opcode]
    rfl
  have divided : ScoreOp.div.apply (Int32.ofNat (n - 896)) 8 = Int32.ofNat ((n - 896) / 8) :=
    ScoreOp.apply_div_ofNat (by omega) (by decide) (by decide)
  rw [World.runAll_cons, set, World.runAll_cons, Variable.after_addCommand_setScore, less,
    World.runAll_cons, h.knows.after_operateScore_setScore (by decide) (by decide) foreign, divided,
    World.runAll_cons, Variable.after_addCommand_setScore, World.runAll_nil, Int32.ofNat_add]
  rfl

theorem runAll_arithmeticSelect (group : n / 1024 = 0) (p : Site) :
    w.runAll p arithmeticSelect =
      ((w.setScore ⟨"arith_src"⟩ (Int32.ofNat (n % 8))).setScore ⟨"arith_dst"⟩
        (Int32.ofNat (n / 8 % 8))).setScore ⟨"arith_target_z"⟩ (Int32.ofNat (rowOf n)) := by
  have small : n < 4096 := by omega
  have source : sliceValue n 0 3 false = n % 8 := by simp [sliceValue]
  have destination : sliceValue n 3 3 false = n / 8 % 8 := by simp [sliceValue]
  have h₁ := h.setScore (v := ⟨"arith_src"⟩) (by decide) (by decide) (Int32.ofNat (n % 8))
  have h₂ := h₁.setScore (v := ⟨"arith_dst"⟩) (by decide) (by decide) (Int32.ofNat (n / 8 % 8))
  simp only [arithmeticSelect, List.append_assoc]
  rw [World.runAll_append, h.runAll_slice small _ _ _ _ ⟨by decide, by decide, by decide, by decide⟩, source,
    World.runAll_append, h₁.runAll_slice small _ _ _ _ ⟨by decide, by decide, by decide, by decide⟩,
    destination, runAll_choice (Command.settled_of_all (by decide))
      (Command.settled_of_all (by decide)), h₂.holds_belowUnary small]
  by_cases low : n < 896
  · have row : n / 2 ^ 6 % 2 ^ 4 + 1 = rowOf n := by
      simp only [rowOf, group, if_pos low]
      omega
    rw [decide_eq_true low, if_pos rfl, h₂.runAll_row small _ _ _ ⟨by decide, by decide, by decide, by decide⟩,
      row]
  · have row : (n - 896) / 8 + 15 = rowOf n := by simp only [rowOf, group, if_neg low]
    rw [decide_eq_false low, if_neg Bool.false_ne_true, h₂.runAll_unaryRow small (by omega), row]

theorem runAll_jumpOffset (small : n < 4096) (p : Site) :
    w.runAll p jumpOffset = w.setScore ⟨"jump_offset"⟩ (Int32.ofInt ((n : Int).bmod 128)) := by
  have set : (Command.operateScore ⟨"jump_offset"⟩ .set ⟨"opcode"⟩).after p.centre w =
      w.setScore ⟨"jump_offset"⟩ (Int32.ofNat n) := by
    rw [Command.after_operateScore _ _ _ _ (by decide), h.opcode]
    rfl
  have reduced : ScoreOp.mod.apply (Int32.ofNat n) 128 = Int32.ofNat (n % 128) :=
    ScoreOp.apply_mod_ofNat (by omega) (by decide) (by decide)
  have negative : offsetNegative.holds (w.setScore ⟨"jump_offset"⟩ (Int32.ofNat (n % 128))) =
      decide (¬ n % 128 < 64) := by
    have half : (64 : Int32) = Int32.ofNat 64 := rfl
    rw [offsetNegative, Branch.holds, Condition.holds_ofComparison, World.score_setScore_self, half]
    simp only [Comparison.holds, Bool.bne_false, ← Int32.not_lt,
      lt_ofNat_iff (show n % 128 < 2 ^ 31 by omega) (show 64 < 2 ^ 31 by decide)]
  rw [jumpOffset, World.runAll_cons, set, World.runAll_cons, h.knows.after_operateScore_setScore (by decide)
    (by decide) (Variable.isForeign_of_isWord (by decide)), reduced, World.runAll_cons, World.runAll_nil,
    Command.after_guarded, negative, Variable.after_addCommand_setScore]
  by_cases low : n % 128 < 64
  · have value : ((n % 128 : Nat) : Int) = (n : Int).bmod 128 := by
      rw [Int.bmod_def]
      omega
    simp only [low, not_true_eq_false, decide_false, Bool.false_eq_true, if_false]
    rw [← value, Int32.ofInt_eq_ofNat]
  · have value : ((n % 128 : Nat) : Int) + -128 = (n : Int).bmod 128 := by
      rw [Int.bmod_def]
      omega
    simp only [low, not_false_eq_true, decide_true, if_true]
    rw [← value, Int32.ofInt_add, Int32.ofInt_eq_ofNat]

theorem runAll_nearSelect (small : n < 4096) (p : Site) :
    w.runAll p nearSelect =
      ((w.setScore ⟨"jump_offset"⟩ (Int32.ofInt ((n : Int).bmod 128))).setScore ⟨"jump_target"⟩
        (w.score ⟨"ip"⟩ + Int32.ofInt ((n : Int).bmod 128))).setScore ⟨"jump_position_z"⟩
          (Int32.ofNat (n / 128 % 8 + 1)) := by
  let offset := Int32.ofInt ((n : Int).bmod 128)
  have h₁ := h.setScore (v := ⟨"jump_offset"⟩) (by decide) (by decide) offset
  have h₂ := h₁.setScore (v := ⟨"jump_target"⟩) (by decide) (by decide) (w.score ⟨"ip"⟩ + offset)
  have target (q : Site) : (w.setScore ⟨"jump_offset"⟩ offset).runAll q
      [.operateScore ⟨"jump_target"⟩ .set ⟨"ip"⟩,
        .operateScore ⟨"jump_target"⟩ .add ⟨"jump_offset"⟩] =
      (w.setScore ⟨"jump_offset"⟩ offset).setScore ⟨"jump_target"⟩ (w.score ⟨"ip"⟩ + offset) := by
    rw [World.runAll_cons, Command.after_operateScore _ _ _ _ (by decide), World.runAll_cons,
      Command.after_operateScore _ _ _ _ (by decide), World.runAll_nil, World.score_setScore_self,
      World.score_setScore_of_ne _ (by decide), World.score_setScore_of_ne _ (by decide),
      World.score_setScore_of_ne _ (by decide), World.score_setScore_self, World.setScore_setScore]
    rfl
  have row : n / 2 ^ 7 % 2 ^ 3 + 1 = n / 128 % 8 + 1 := by omega
  rw [nearSelect, World.runAll_append, h.runAll_jumpOffset small, World.runAll_append, target,
    h₂.runAll_row small _ _ _ ⟨by decide, by decide, by decide, by decide⟩, row]

theorem runAll_farSelect (small : n < 4096) (p : Site) :
    w.runAll p farSelect =
      (w.setScore ⟨"jump_target"⟩ (Int32.ofNat (n % 16) * 256 + w.score ⟨"cr"⟩)).setScore
        ⟨"jump_position_z"⟩ (Int32.ofNat (n / 16 % 8 + 1)) := by
  let target : Variable := ⟨"jump_target"⟩
  have h₁ := h.setScore (v := target) (by decide) (by decide)
    (Int32.ofNat (n % 16) * 256 + w.score ⟨"cr"⟩)
  have foreign : target.IsForeign := Variable.isForeign_of_isWord (by decide)
  have reduced : ScoreOp.mod.apply (Int32.ofNat n) 16 = Int32.ofNat (n % 16) :=
    ScoreOp.apply_mod_ofNat (by omega) (by decide) (by decide)
  have computed (q : Site) : w.runAll q
      [.operateScore target .set ⟨"opcode"⟩, .operateScore target .mod (constantNamed 16),
        .operateScore target .mul (constantNamed 256), .operateScore target .add ⟨"cr"⟩] =
      w.setScore target (Int32.ofNat (n % 16) * 256 + w.score ⟨"cr"⟩) := by
    have copied : (Command.operateScore target .set ⟨"opcode"⟩).after q.centre w =
        w.setScore target (Int32.ofNat n) := by
      rw [Command.after_operateScore _ _ _ _ (by decide), h.opcode]
      rfl
    rw [World.runAll_cons, copied,
      World.runAll_cons, h.knows.after_operateScore_setScore (by decide) (by decide) foreign, reduced,
      World.runAll_cons, h.knows.after_operateScore_setScore (by decide) (by decide) foreign,
      World.runAll_cons, Command.after_operateScore _ _ _ _ (by decide), World.score_setScore_self,
      World.score_setScore_of_ne _ (by decide), World.setScore_setScore, World.runAll_nil]
    rfl
  have row : n / 2 ^ 4 % 2 ^ 3 + 1 = n / 16 % 8 + 1 := by omega
  rw [farSelect, World.runAll_append, computed,
    h₁.runAll_row small _ _ _ ⟨by decide, by decide, by decide, by decide⟩, row]

theorem runAll_jumpSelect (group : n / 1024 = 1) (p : Site) :
    w.runAll p jumpSelect =
      ((if n < 1920 then w.setScore ⟨"jump_offset"⟩ (Int32.ofInt ((n : Int).bmod 128))
        else w).setScore ⟨"jump_target"⟩ (jumpTarget n (w.score ⟨"ip"⟩) (w.score ⟨"cr"⟩))).setScore
          ⟨"jump_position_z"⟩ (Int32.ofNat (rowOf n)) := by
  have small : n < 4096 := by omega
  rw [jumpSelect, runAll_choice settled_nearSelect (Command.settled_of_all (by decide)),
    h.holds_belowPages small]
  by_cases low : n < 1920
  · have row : n / 128 % 8 + 1 = rowOf n := by simp only [rowOf, group, if_pos low]
    rw [decide_eq_true low, if_pos rfl, if_pos low, h.runAll_nearSelect small, row, jumpTarget,
      if_pos low]
  · have row : n / 16 % 8 + 1 = rowOf n := by simp only [rowOf, group, if_neg low]
    rw [decide_eq_false low, if_neg Bool.false_ne_true, if_neg low, h.runAll_farSelect small, row,
      jumpTarget, if_neg low]

end Decodes

end Machine

end BlockComputer
