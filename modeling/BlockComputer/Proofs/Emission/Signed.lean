import BlockComputer.Proofs.Emission.Bits
import Mathlib.Data.Int.ModEq

/-!
A bit field read as two's complement.

A field that has been cut out of a score is a number from zero on. If it lies in the upper half of its
range, the whole range is taken away from it; the guard of this one command is a range of scores. Up to 30
bits the range is a number that one command can take away.
-/

namespace BlockComputer

section client

variable {s : Session} {v : Variable}

theorem Client.ite {α : Type} {c : Prop} [Decidable c] {x y : EmitM α} (yes : Client x s) (no : Client y s) :
    Client (if c then x else y) s := by
  split
  · exact yes
  · exact no

theorem Client.thenIf {α : Type} {c : Prop} [Decidable c] {x : EmitM Unit} {f : Unit → EmitM α}
    (first : Client x s) (second : ∀ t, Client (f ()) t) : Client (if c then x >>= f else f ()) s :=
  .ite (.bind first fun _ t _ => second t) (second s)

theorem Client.bitslice (foreign : v.IsForeign) (skip length : UInt32) (last : Bool) (s : Session) :
    Client (v.bitslice skip length last) s := by
  unfold Variable.bitslice
  refine .thenIf (.fail _ _) fun _ => .thenIf (.fail _ _) fun _ => ?_
  exact .thenIf (.operate foreign _ _ _) fun _ => .ite (.operate foreign _ _ _) (.pure _ _)

theorem Client.signExtend (foreign : v.IsForeign) (width : UInt32) (s : Session) :
    Client (v.signExtend width) s := by
  have guards (k : Int32) : ∀ u ∈ (Condition.ofComparison v .ge (.literal k)).reads, u.IsForeign :=
    List.forall_mem_singleton.2 foreign
  unfold Variable.signExtend
  refine .thenIf (.fail _ _) fun _ => ?_
  exact .bind (.runIf (guards _) (.operate foreign _ _ _)) fun _ _ _ => .pure _ _

end client

def Variable.extendCommand (v : Variable) (width : Nat) : Command :=
  (v.addCommand (-(2 ^ width : Nat))).guarded
    [.ifHolds (.ofComparison v .ge (.literal (Int32.ofNat (2 ^ (width - 1)))))]

def extendScore (n : Int32) (width : Nat) : Int32 :=
  if 2 ^ (width - 1) ≤ n.toInt then n + Int32.ofInt (-(2 ^ width : Nat)) else n

theorem after_extendCommand {w : World} {v : Variable} {n : Int32} (value : w.scores v = some n) {width : Nat}
    (high : width ≤ 30) (origin : Point) :
    (v.extendCommand width).after origin w = w.setScore v (extendScore n width) := by
  have score : w.score v = n := by rw [World.score, value, Option.getD_some]
  let branch : Branch := ⟨.ofComparison v .ge (.literal (Int32.ofNat (2 ^ (width - 1)))), false⟩
  have upper : branch.holds w = decide (2 ^ (width - 1) ≤ n.toInt) := by
    rw [Branch.holds, Condition.holds_ofComparison, score, Bool.bne_false, Comparison.holds]
    simp only [Int32.le_iff_toInt_le, toInt_two_pow (show width - 1 ≤ 30 by omega)]
  refine (Command.after_guarded branch _ origin w).trans ?_
  rw [upper, extendScore]
  by_cases half : 2 ^ (width - 1) ≤ n.toInt
  · rw [decide_eq_true half, if_pos rfl, if_pos half, Variable.after_addCommand, score]
  · rw [decide_eq_false half, if_neg Bool.false_ne_true, if_neg half, World.setScore_eq_self value]

theorem toInt_extendScore {n : Int32} {width : Nat} (positive : width ≠ 0) (high : width ≤ 30)
    (nonneg : 0 ≤ n.toInt) (below : n.toInt < 2 ^ width) :
    (extendScore n width).toInt = n.toInt.bmod (2 ^ width) := by
  obtain ⟨k, rfl⟩ := Nat.exists_eq_succ_of_ne_zero positive
  have power : (2 : Int) ^ (k + 1) ≤ 2 ^ 30 := by exact_mod_cast Nat.pow_le_pow_right (by decide : 0 < 2) high
  have double : (2 : Int) ^ (k + 1) = 2 * 2 ^ k := Int.pow_succ' ..
  rw [Int.bmod_def, extendScore, Nat.cast_pow, Nat.cast_ofNat, Int.emod_eq_of_lt nonneg below]
  by_cases half : 2 ^ k ≤ n.toInt
  · have upper : ¬ n.toInt < (2 ^ (k + 1) + 1) / 2 := by omega
    rw [Nat.succ_sub_one, if_pos half, if_neg upper, ← n.ofInt_toInt, ← Int32.ofInt_add,
      Int32.toInt_ofInt_of_le, n.ofInt_toInt]
    · omega
    · omega
    · omega
  · have lower : n.toInt < (2 ^ (k + 1) + 1) / 2 := by omega
    rw [Nat.succ_sub_one, if_neg half, if_pos lower]

/-- Cutting out a field and extending its sign sets one score, to the balanced remainder of the quotient. -/
theorem World.runAll_signedField {w : World} {v : Variable} {n : Int32} (value : w.scores v = some n)
    {skip width : Nat} (positive : width ≠ 0) (high : width ≤ 30) (top : skip + width ≤ 31)
    (knows : w.Knows (Variable.sliceConstants skip width false)) (foreign : v.IsForeign) (p : Site) :
    ∃ m : Int32, w.runAll p (v.sliceCommands skip width false ++ [v.extendCommand width]) = w.setScore v m ∧
      m.toInt = (n.toInt / 2 ^ skip).bmod (2 ^ width) := by
  have power : (0 : Int) < 2 ^ width := Int.pow_pos (by decide)
  have field := toInt_sliceScore n skip high
  have extended := toInt_extendScore positive high (field ▸ Int.emod_nonneg _ power.ne')
    (field ▸ Int.emod_lt_of_pos _ power)
  refine ⟨extendScore (sliceScore n skip width false) width, ?_, ?_⟩
  · rw [runAll_append, runAll_sliceCommands value (by omega) knows foreign, runAll_cons, runAll_nil,
      after_extendCommand (scores_setScore_self _ _ _) high, setScore_setScore]
  · have modulus : (2 : Int) ^ width = (2 ^ width : Nat) := by rw [Nat.cast_pow, Nat.cast_ofNat]
    rw [extended, field, modulus, Int.emod_bmod]

/-- A field of 1 to 30 bits below the sign that is cut out of a foreign variable and then sign-extended leaves
these bits read as two's complement: the number between `-2 ^ (width - 1)` and `2 ^ (width - 1) - 1` that is
congruent to the quotient rounded down, for negative numbers too. Nothing else changes. Every other width is
refused, and then nothing happens to the session. -/
theorem signed_fields_read {α : Type} {x : EmitM α} (client : Client x {}) {v : Variable}
    (foreign : v.IsForeign) (opened : (perform x {}).2.scopes ≠ []) :
    let s := (perform x {}).2
    (∀ skip width : UInt32, 1 ≤ width → width ≤ 30 → skip.toNat + width.toNat ≤ 31 →
      ∃ t cs, s.Gives (do v.bitslice skip width false; v.signExtend width) () t cs ∧
        ∀ (u : World) (p : Site) (n : Int32), u.IsInitialized t → u.scores v = some n →
          ∃ m : Int32, u.runAll p cs = u.setScore v m ∧
            -2 ^ (width.toNat - 1) ≤ m.toInt ∧ m.toInt ≤ 2 ^ (width.toNat - 1) - 1 ∧
            m.toInt ≡ n.toInt / 2 ^ skip.toNat [ZMOD 2 ^ width.toNat]) ∧
    ∀ (s : Session) (width : UInt32), width = 0 ∨ 30 < width →
      perform (v.signExtend width) s = (.error (.error (.invalidWidth width.toNat)), s) := by
  intro s
  refine ⟨fun skip width low high top => ?_, fun s width refused => ?_⟩
  · have positive : width ≠ 0 := by
      rintro rfl
      exact absurd low (by decide)
    have emits := (Emits.bitslice v skip width false positive top).seq (Emits.signExtend v width positive high)
    have steps : Client (do v.bitslice skip width false; v.signExtend width) s :=
      .bind (.bitslice foreign _ _ _ s) fun _ t _ => .signExtend foreign width t
    refine ⟨_, _, emits.gives opened, fun u p n initialized value => ?_⟩
    have knows := (emits.knows opened steps client.isPrimed_new initialized).mono (List.subset_append_left _ _)
    have bits : width.toNat ≠ 0 := fun zero => positive (UInt32.toNat_inj.1 zero)
    obtain ⟨m, ran, number⟩ := World.runAll_signedField value bits high top knows foreign p
    obtain ⟨k, width_eq⟩ := Nat.exists_eq_succ_of_ne_zero bits
    have modulus : (2 ^ width.toNat : Nat) = 2 * 2 ^ k := by rw [width_eq, Nat.pow_succ']
    have range : 0 < 2 ^ width.toNat := Nat.two_pow_pos _
    have least := Int.le_bmod (x := n.toInt / 2 ^ skip.toNat) range
    have greatest := Int.bmod_lt (x := n.toInt / 2 ^ skip.toNat) range
    have half : ((2 ^ k : Nat) : Int) = 2 ^ (width.toNat - 1) := by
      rw [width_eq, Nat.succ_sub_one, Nat.cast_pow, Nat.cast_ofNat]
    have whole : (2 : Int) ^ width.toNat = (2 ^ width.toNat : Nat) := by rw [Nat.cast_pow, Nat.cast_ofNat]
    rw [← number] at least greatest
    refine ⟨m, ran, ?_, ?_, ?_⟩
    · omega
    · omega
    · rw [Int.ModEq, number, whole, Int.bmod_emod]
  · unfold Variable.signExtend
    rw [if_pos refused]
    rfl

/-- Four bits of a negative number: -300 is -19 * 16 + 4, -19 is -2 * 16 + 13, and 13 is read as -3. -/
theorem signed_fields_read_negative :
    let s := (perform (numberClient (-300)) {}).2
    Client (numberClient (-300)) {} ∧ Variable.IsForeign ⟨"v"⟩ ∧ s.scopes ≠ [] ∧
      ∃ t cs, s.Gives (do Variable.bitslice ⟨"v"⟩ 4 4 false; Variable.signExtend ⟨"v"⟩ 4) () t cs ∧
        ∀ (w : World) (p q : Site), let u := (w.runAll p t.init).setScore ⟨"v"⟩ (-300)
          u.runAll q cs = u.setScore ⟨"v"⟩ (-3) := by
  intro s
  have client : Client (numberClient (-300)) {} := .bind (.enter _) fun _ _ _ => .create isForeign_v _ _
  have opened : s.scopes ≠ [] := by decide
  obtain ⟨t, cs, gives, runs⟩ :=
    (signed_fields_read client isForeign_v opened).1 4 4 (by decide) (by decide) (by decide)
  refine ⟨client, isForeign_v, opened, t, cs, gives, fun w p q => ?_⟩
  intro u
  have initialized : u.IsInitialized t := .of_foreign isForeign_v w p (-300)
  obtain ⟨m, ran, least, greatest, number⟩ := runs u q (-300) initialized (World.scores_setScore_self _ _ _)
  have fields : m.toInt % 16 = 13 := number
  have low : -8 ≤ m.toInt := least
  have high : m.toInt ≤ 7 := greatest
  have three : m.toInt = (-3 : Int32).toInt := show m.toInt = -3 by omega
  rw [ran, Int32.toInt_inj.1 three]

end BlockComputer
