import BlockComputer.Proofs.Relocation.InPlace

/-!
The three commands of a relocation, on rows of blocks.

Both copies and the fill work on rows that run east, so a box is given by its first site and its
length, and what they do to a block is told by its place in the row.
-/

namespace BlockComputer

variable {w : World}

namespace Site

theorem mem_row {p : Site} {n i : Nat} (h : i < n) : p.shift i ∈ p.row n :=
  ⟨i, h, rfl⟩

theorem isWithin_row {p q : Site} {n : Nat} (pos : 0 < n) :
    q.IsWithin p (p.shift (n - 1)) ↔ q ∈ p.row n := by
  obtain ⟨x, y, z⟩ := q
  simp only [IsWithin, shift, row, Set.mem_ofPred_eq, mk.injEq]
  constructor
  · intro h
    exact ⟨(x - p.x).toNat, by omega, by omega⟩
  · rintro ⟨i, hi, hx, hy, hz⟩
    omega

theorem isWithin_comm (q a b : Site) : q.IsWithin a b ↔ q.IsWithin b a := by
  simp only [IsWithin, Int.min_comm, Int.max_comm]

end Site

namespace World

theorem clone_row_of_lt (w : World) {p target : Site} {n i : Nat} (h : i < n) (masked : Bool) :
    (w.clone p (p.shift (n - 1)) target masked).blocks (target.shift i) =
      match w.blocks (p.shift i) with
      | some block => some block
      | none => if masked then w.blocks (target.shift i) else none := by
  have source : Site.origin p (p.shift (n - 1)) target (target.shift i) = p.shift i := by
    simp only [Site.origin, Site.leastCorner, Site.shift, Site.mk.injEq]
    omega
  have inside := (Site.isWithin_row (p := p) (Nat.zero_lt_of_lt h)).2 (Site.mem_row h)
  cases block : w.blocks (p.shift i) <;> simp [clone, source, inside, block]

theorem clone_row_of_notMem (w : World) {p target q : Site} {n : Nat} (pos : 0 < n) (h : q ∉ target.row n)
    (masked : Bool) : (w.clone p (p.shift (n - 1)) target masked).blocks q = w.blocks q := by
  have outside : ¬ (Site.origin p (p.shift (n - 1)) target q).IsWithin p (p.shift (n - 1)) := by
    rw [Site.isWithin_row pos]
    rintro ⟨i, hi, same⟩
    refine h ⟨i, hi, ?_⟩
    obtain ⟨x, y, z⟩ := q
    simp only [Site.origin, Site.leastCorner, Site.shift, Site.mk.injEq] at same ⊢
    omega
  simp [clone, outside]

theorem fill_row_of_lt {p : Site} {n i : Nat} (h : i < n) (block : Block) :
    (w.fill (p.shift (n - 1)) p block).blocks (p.shift i) = some block := by
  have inside := (Site.isWithin_row (p := p) (Nat.zero_lt_of_lt h)).2 (Site.mem_row h)
  simp [fill, Site.isWithin_comm _ _ p, inside]

theorem fill_row_of_notMem {p q : Site} {n : Nat} (pos : 0 < n) (h : q ∉ p.row n) (block : Block) :
    (w.fill (p.shift (n - 1)) p block).blocks q = w.blocks q := by
  have outside : ¬ q.IsWithin p (p.shift (n - 1)) := by rwa [Site.isWithin_row pos]
  simp [fill, Site.isWithin_comm _ _ p, outside]

/-- A row copied by way of the buffer to a row of `n` sites, with what stands there left where the
source has air. -/
def copyAhead (w : World) (source target : Site) (n : Nat) : World :=
  (w.clone source (source.shift (n - 1)) bufferStart false).clone bufferStart
    (bufferStart.shift (n - 1)) target true

variable {source target q : Site} {n i : Nat}

theorem copyAhead_of_lt (h : i < n) (apart : target.shift i ∉ bufferRow n) :
    (w.copyAhead source target n).blocks (target.shift i) =
      (w.blocks (source.shift i)).or (w.blocks (target.shift i)) := by
  have buffered : (w.clone source (source.shift (n - 1)) bufferStart false).blocks
      (bufferStart.shift i) = w.blocks (source.shift i) := by
    rw [clone_row_of_lt _ h]
    cases w.blocks (source.shift i) <;> rfl
  have before := w.clone_row_of_notMem (p := source) (Nat.zero_lt_of_lt h) apart false
  rw [copyAhead, clone_row_of_lt _ h, buffered, before]
  cases w.blocks (source.shift i) <;> rfl

theorem copyAhead_buffer (h : i < n) (apart : bufferStart.shift i ∉ target.row n) :
    (w.copyAhead source target n).blocks (bufferStart.shift i) = w.blocks (source.shift i) := by
  rw [copyAhead, clone_row_of_notMem _ (Nat.zero_lt_of_lt h) apart, clone_row_of_lt _ h]
  cases w.blocks (source.shift i) <;> rfl

theorem copyAhead_of_notMem (pos : 0 < n) (notBuffer : q ∉ bufferRow n) (notTarget : q ∉ target.row n) :
    (w.copyAhead source target n).blocks q = w.blocks q := by
  rw [copyAhead, clone_row_of_notMem _ pos notTarget, clone_row_of_notMem _ pos notBuffer]

end World

section commands

variable {n : Nat} (fits : n ≤ greatestWindow)

include fits

theorem copyToBuffer_after {anchor : Entity} {q : Point} (stands : w.locate anchor = some q)
    (origin : Point) :
    (Item.copyToBuffer anchor n).after origin w =
      w.clone q.site (q.site.shift (n - 1)) bufferStart false := by
  have last := toInt_ofNat_of_le ((Nat.sub_le n 1).trans fits)
  have far : (Position.relative (Int32.ofNat (n - 1)) 0 0).siteFrom q = q.site.shift (n - 1) := by
    simp only [Position.siteFrom_relative, last, Site.shift]
    simp
  have here : Position.here.siteFrom q = q.site := by
    simp [Position.here, Position.siteFrom_relative]
  simp only [Item.copyToBuffer, Command.after, Qualifier.enter, stands, Option.bind_some,
    Command.run, far, here, bufferPosition, Position.siteFrom_absolute, List.foldl_nil]
  rfl

theorem copyFromBuffer_after (p : Site) :
    (Item.copyFromBuffer n).after p.centre w =
      w.clone bufferStart (bufferStart.shift (n - 1)) (p.shift 1) true := by
  have last := toInt_ofNat_of_le ((Nat.sub_le n 1).trans fits)
  simp only [Item.copyFromBuffer, Command.after, Command.run, Position.siteFrom_relative, bufferPosition,
    Position.siteFrom_absolute, last, Site.shift, Site.site_centre, bufferStart_eq]
  simp

theorem neutralize_after (pos : 0 < n) (p : Site) :
    (Item.neutralize n).after (p.shift n).centre w = w.fill (p.shift (n - 1)) p (.unit .chain .placeholder) := by
  have length : (-Int32.ofNat n).toInt = -n := by
    unfold greatestWindow at fits
    rw [Int32.neg_ofNat]
    exact Int32.toInt_ofInt_of_le (by omega) (by omega)
  have pred : p.x + n + -1 = p.x + (n - 1 : Nat) := by omega
  have back : p.x + n + -n = p.x := by omega
  simp only [Item.neutralize, Command.after, Command.run, Position.siteFrom_relative, length, Site.shift,
    Site.site_centre, Filling.block]
  simp [pred, back]

end commands

end BlockComputer
