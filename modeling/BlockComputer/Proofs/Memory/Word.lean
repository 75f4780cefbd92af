import BlockComputer.Machine.Memory
import BlockComputer.Proofs.World.Basic

/-!
Words of twelve bits, as addresses and as the contents of barrels.

A score stands for the word that it is congruent to. Every word has a barrel of its own in the memory,
and two counts of its own that a barrel can hold.
-/

namespace BlockComputer.Machine

def InMemory (p : Site) : Prop :=
  (0 ≤ p.x ∧ p.x ≤ 15) ∧ (128 ≤ p.y ∧ p.y ≤ 143) ∧ 0 ≤ p.z ∧ p.z ≤ 15

instance (p : Site) : Decidable (InMemory p) :=
  inferInstanceAs (Decidable (_ ∧ _ ∧ _))

theorem not_inMemory_of_low {p : Site} (low : p.y < 128) : ¬ InMemory p :=
  fun inMemory => absurd inMemory.2.1.1 (Int.not_le.2 low)

def IsCount (n : Int32) : Prop :=
  1 ≤ n.toInt ∧ n.toInt ≤ 64

abbrev Word : Type := Fin 4096

namespace Word

def ofScore (n : Int32) : Word :=
  ⟨(n.toInt % 4096).toNat, by omega⟩

def score (a : Word) : Int32 :=
  Int32.ofNat a.val

def counts (a : Word) : Counts :=
  .ofNumber (score a)

def site (a : Word) : Site :=
  ⟨(a.val % 16 : Nat), (a.val / 16 % 16 + 128 : Nat), (a.val / 256 : Nat)⟩

def ofSite (p : Site) : Word :=
  ⟨(p.x + 16 * (p.y - 128) + 256 * p.z).toNat % 4096, Nat.mod_lt _ (by decide)⟩

theorem toInt_score (a : Word) : (score a).toInt = a.val :=
  Int32.toInt_ofNat_of_lt (Nat.lt_trans a.isLt (by decide))

@[simp] theorem ofScore_score (a : Word) : ofScore (score a) = a := by
  have less := a.isLt
  apply Fin.ext
  simp only [ofScore, toInt_score]
  omega

theorem val_ofScore (n : Int32) : ((ofScore n).val : Int) = n.toInt % 4096 := by
  simp only [ofScore]
  omega

theorem score_ofScore (n : Int32) : score (ofScore n) = Int32.ofInt (n.toInt % 4096) := by
  rw [score, ← Int32.ofInt_eq_ofNat, val_ofScore]

theorem ofScore_eq_iff {m n : Int32} : ofScore m = ofScore n ↔ m.toInt % 4096 = n.toInt % 4096 := by
  rw [← val_ofScore, ← val_ofScore, Fin.ext_iff]
  omega

theorem score_injective {a b : Word} (same : score a = score b) : a = b := by
  rw [← ofScore_score a, same, ofScore_score]

theorem counts_ofScore (n : Int32) : counts (ofScore n) = .ofNumber n := by
  have residue : (score (ofScore n)).toInt % 4096 = n.toInt % 4096 := by
    rw [toInt_score, val_ofScore, Int.emod_emod]
  have word : Counts.word.toInt = 4096 := rfl
  simp only [counts, Counts.ofNumber, word, residue]

theorem counts_eq (a : Word) :
    counts a = ⟨Int32.ofNat (a.val / 64 + 1), Int32.ofNat (a.val % 64 + 1)⟩ := by
  have less := a.isLt
  have high : ((a.val : Int) % 4096) / 64 + 1 = (a.val / 64 + 1 : Nat) := by omega
  have low : ((a.val : Int) % 4096) % 64 + 1 = (a.val % 64 + 1 : Nat) := by omega
  change Counts.mk (Int32.ofInt ((score a).toInt % 4096 / 64 + 1))
    (Int32.ofInt ((score a).toInt % 4096 % 64 + 1)) = _
  rw [toInt_score, high, low, Int32.ofInt_eq_ofNat, Int32.ofInt_eq_ofNat]

theorem counts_zero : counts 0 = ⟨1, 1⟩ := by
  decide

theorem isCount_counts (a : Word) : IsCount (counts a).high ∧ IsCount (counts a).low := by
  have less := a.isLt
  rw [counts_eq]
  simp only [IsCount]
  rw [Int32.toInt_ofNat_of_lt (by omega), Int32.toInt_ofNat_of_lt (by omega)]
  omega

theorem score_of_counts (a : Word) :
    ((counts a).high + Int32.ofInt (-1)) * 64 + (counts a).low + Int32.ofInt (-1) = score a := by
  have whole : score a = Int32.ofNat (a.val / 64) * 64 + Int32.ofNat (a.val % 64) := by
    rw [score, ← Nat.div_add_mod' a.val 64, Int32.ofNat_add, Int32.ofNat_mul, Nat.div_add_mod']
    rfl
  rw [whole, counts_eq, Int32.ofNat_add, Int32.ofNat_add]
  generalize Int32.ofNat (a.val / 64) = high
  generalize Int32.ofNat (a.val % 64) = low
  have one : Int32.ofNat 1 = 1 := rfl
  have less : Int32.ofInt (-1) = -1 := rfl
  rw [one, less]
  grind

theorem toNumber_counts (a : Word) : (counts a).toNumber = .ok (score a) := by
  have less := a.isLt
  have six {n : Nat} (small : n ≤ 64) : (Int32.ofNat n).toInt = n := Int32.toInt_ofNat_of_lt (by omega)
  have narrowed {n : Nat} (small : n < 4096) : narrow (n : Int) = .ok (Int32.ofNat n) := by
    have range : -Int.pow 2 31 ≤ (n : Int) ∧ (n : Int) < Int.pow 2 31 := by
      rw [show Int.pow 2 31 = 2147483648 from rfl]
      omega
    rw [narrow, if_pos range, Int32.ofInt_eq_ofNat]
  have bias : Counts.bias.toInt = 1 := rfl
  have half : Counts.half.toInt = 64 := rfl
  have high : ((a.val / 64 + 1 : Nat) : Int) - 1 = (a.val / 64 : Nat) := by omega
  have low : ((a.val % 64 + 1 : Nat) : Int) - 1 = (a.val % 64 : Nat) := by omega
  have upper : ((a.val / 64 : Nat) : Int) * 64 = (a.val / 64 * 64 : Nat) := by omega
  have sum : ((a.val / 64 * 64 : Nat) : Int) + (a.val % 64 : Nat) = a.val := by omega
  rw [counts_eq, Counts.toNumber]
  simp only [bias, half, six (show a.val / 64 + 1 ≤ 64 by omega),
    six (show a.val % 64 + 1 ≤ 64 by omega), high, low, bind, Except.bind,
    narrowed (show a.val / 64 < 4096 by omega), six (show a.val / 64 ≤ 64 by omega), upper,
    narrowed (show a.val / 64 * 64 < 4096 by omega),
    narrowed (show a.val % 64 < 4096 by omega), six (show a.val % 64 ≤ 64 by omega),
    Int32.toInt_ofNat_of_lt (show a.val / 64 * 64 < 2 ^ 31 by omega), sum, narrowed less]
  rfl

theorem site_injective {a b : Word} (same : site a = site b) : a = b := by
  have lessA := a.isLt
  have lessB := b.isLt
  simp only [site, Site.mk.injEq] at same
  apply Fin.ext
  omega

@[simp] theorem ofSite_site (a : Word) : ofSite (site a) = a := by
  have less := a.isLt
  apply Fin.ext
  simp only [ofSite, site]
  omega

theorem inMemory_site (a : Word) : InMemory (site a) := by
  have less := a.isLt
  simp only [InMemory, site]
  omega

theorem exists_site_eq {p : Site} (inside : InMemory p) : ∃ a, p = site a := by
  refine ⟨ofSite p, ?_⟩
  obtain ⟨x, y, z⟩ := p
  simp only [InMemory] at inside
  simp only [site, ofSite, Site.mk.injEq]
  omega

theorem site_cell {n : Int32} (nonneg : 0 ≤ n.toInt) : (Layout.cell n).site = site (ofScore n) := by
  have low (k : Int32) : (k % 16).toInt = k.toInt.tmod 16 := Int32.toInt_mod k 16
  have quotient (b : Int32) (pos : 0 < b.toInt) : (n / b).toInt = n.toInt / b.toInt := by
    rw [Int32.toInt_div_of_ne_right _ _ (by rintro rfl; exact absurd pos (by decide)),
      Int.tdiv_eq_ediv_of_nonneg nonneg]
  have rows : (n / 16).toInt = n.toInt / 16 := quotient 16 (by decide)
  have layers : (n / 256).toInt = n.toInt / 256 := quotient 256 (by decide)
  have height : (128 + n / 16 % 16).toInt = 128 + (n.toInt / 16) % 16 := by
    have offset : (128 : Int32).toInt = 128 := rfl
    rw [Int32.toInt_add, low, rows, offset, Int.tmod_eq_emod_of_nonneg (by omega)]
    exact Int.bmod_eq_of_le (by omega) (by omega)
  have residue := val_ofScore n
  simp only [Layout.cell, Position.absolute, Position.site, height]
  rw [low, low, layers, Int.tmod_eq_emod_of_nonneg nonneg, Int.tmod_eq_emod_of_nonneg (by omega)]
  simp only [site, Site.mk.injEq]
  omega

end Word

end BlockComputer.Machine
