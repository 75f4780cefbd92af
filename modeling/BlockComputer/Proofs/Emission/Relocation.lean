import BlockComputer.Proofs.Emission.Ensures
import BlockComputer.Proofs.Relocation.InPlace

/-!
What the steps of a relocation emit.

Up to the greatest window the 32-bit sums of the two copied regions stay in range, so a relocation
always emits its units and never crashes.
-/

namespace BlockComputer

theorem narrow_eq {n : Int} (low : -2 ^ 31 ≤ n) (high : n < 2 ^ 31) :
    narrow n = .ok (Int32.ofInt n) :=
  if_pos ⟨low, high⟩

@[simp] theorem narrow_toInt (a : Int32) : narrow a.toInt = .ok a := by
  rw [narrow_eq (Int32.le_toInt a) (Int32.toInt_lt a), Int32.ofInt_toInt]

theorem here_add_absolute (reach : Int32) :
    Position.here.add (.absolute reach 0 0) = .ok (.relative reach 0 0) := by
  have zero : narrow 0 = .ok 0 := rfl
  simp [Position.add, Position.here, Position.relative, Position.absolute, Axis.add, zero, bind,
    Except.bind, pure, Except.pure]

theorem bufferPosition_add_absolute (reach : Int32) :
    bufferPosition.add (.absolute reach 0 0) = .ok (.absolute reach (-32) 0) := by
  have below : narrow (-32) = .ok (-32) := rfl
  have zero : narrow 0 = .ok 0 := rfl
  simp [Position.add, bufferPosition, Position.absolute, Axis.add, below, zero, bind, Except.bind,
    pure, Except.pure]

namespace Splicer

theorem eq_of_counted {length : Nat} {reach : Int32} (pos : 0 < length)
    (counted : narrow ((Int32.ofNat length).toInt - 1) = .ok reach) :
    reach = Int32.ofNat (length - 1) := by
  have range : (Int32.ofNat length).toInt - 1 = reach.toInt := by
    unfold narrow at counted
    split at counted
    · next within =>
      cases counted
      exact (Int32.toInt_ofInt_of_le within.1 within.2).symm
    · cases counted
  rw [← Int32.ofInt_toInt reach, ← range, Int32.ofInt_sub, Int32.ofInt_toInt,
    Int32.ofNat_sub _ _ pos]
  rfl

theorem emits_spliceFrom (anchor : Entity) {window : Window} {reach : Int32}
    (counted : narrow ((Int32.ofNat window.length).toInt - 1) = .ok reach) :
    Emits (spliceFrom anchor window) () (Item.commands (.splice anchor window)) [] := by
  have same := eq_of_counted window.length_pos counted
  subst same
  unfold spliceFrom
  simp only [counted, here_add_absolute, bufferPosition_add_absolute]
  exact (Emits.pure _).bind <| (Emits.pure _).bind <| (Emits.emitUnder _ _).seq <|
    (Emits.pure _).bind <| (Emits.emit _).seq <| (Emits.emitAll _).seq (Emits.emit _)

end Splicer

namespace Emits

theorem spliceFrom (anchor : Entity) {window : Window} (fits : window.length ≤ greatestWindow) :
    Emits (Splicer.spliceFrom anchor window) () (Item.commands (.splice anchor window)) [] := by
  have pos := window.length_pos
  have pred : (window.length : Int) - 1 = (window.length - 1 : Nat) := by omega
  have counted : narrow ((Int32.ofNat window.length).toInt - 1) =
      .ok (Int32.ofNat (window.length - 1)) := by
    rw [toInt_ofNat_of_le fits, pred, ← toInt_ofNat_of_le ((Nat.sub_le ..).trans fits), narrow_toInt]
  exact Splicer.emits_spliceFrom anchor counted

theorem storeData (e : Entity) (axis : Nat) (v : Variable) :
    Emits (e.storeData (Entity.axisPath axis) v .double) () [Piece.storeCommand e axis v] [] :=
  emit _

theorem moveTo (e : Entity) (target : Vector3) :
    Emits (e.moveTo target) () [Piece.storeCommand e 0 target.x, Piece.storeCommand e 1 target.y,
      Piece.storeCommand e 2 target.z] [] :=
  (storeData e 0 target.x).seq <| (storeData e 1 target.y).seq (storeData e 2 target.z)

theorem executeAt (splicer : Splicer) (source : Vector3) {window : Window}
    (fits : window.length ≤ greatestWindow) :
    Emits (splicer.executeAt source window) ()
      (units (Piece.executeAt splicer source window).items) [] := by
  have emitted := (moveTo splicer.cloner source).seq (spliceFrom splicer.cloner fits)
  simpa [Splicer.executeAt, Piece.items, Item.commands] using emitted

theorem piece {piece : Piece} (fits : piece.FitsIn greatestWindow) :
    Emits piece.emit () (units piece.items) [] := by
  cases piece with
  | command c => simpa [Piece.emit, Piece.items, Item.commands] using emit c
  | spliceFrom anchor window =>
    have bound : window.length ≤ greatestWindow := fits (.splice anchor window) (by simp [Piece.items])
    simpa [Piece.emit, Piece.items] using spliceFrom anchor bound
  | executeAt splicer source window =>
    have bound : window.length ≤ greatestWindow :=
      fits (.splice splicer.cloner window) (by simp [Piece.items])
    exact executeAt splicer source bound

theorem pieces {pieces : List Piece} (fits : ∀ p ∈ pieces, p.FitsIn greatestWindow) :
    Emits (pieces.forM Piece.emit) () (units (pieces.flatMap Piece.items)) [] := by
  induction pieces with
  | nil => exact pure ()
  | cons p pieces ih =>
    have first := piece (fits p (by simp))
    have others := ih fun q mem => fits q (by simp [mem])
    simpa using first.seq others

end Emits

namespace Splicer

theorem ensures_spliceFrom (anchor : Entity) {window : Window} {e : Failure}
    (uncounted : narrow ((Int32.ofNat window.length).toInt - 1) = .error e) :
    Ensures (spliceFrom anchor window) fun _ => False := by
  refine .bind (.lift _) fun reach counted => ?_
  cases uncounted.symm.trans counted

/-- For every window, even one that cannot be counted in 32 bits, a relocation is emitted alike in all
sessions or in none. -/
theorem emitsOrFails_spliceFrom (anchor : Entity) (window : Window) :
    EmitsOrFails (spliceFrom anchor window) := by
  cases counted : narrow ((Int32.ofNat window.length).toInt - 1) with
  | ok reach => exact .inl ⟨_, _, emits_spliceFrom anchor counted⟩
  | error e => exact .inr (ensures_spliceFrom anchor counted)

theorem emitsOrFails_executeAt (splicer : Splicer) (source : Vector3) (window : Window) :
    EmitsOrFails (splicer.executeAt source window) := by
  rcases emitsOrFails_spliceFrom splicer.cloner window with ⟨cs, ks, emits⟩ | fails
  · exact .inl ⟨_, _, (Emits.moveTo splicer.cloner source).seq emits⟩
  · exact .inr (.bind (.any _) fun _ _ => fails)

theorem commands_executeAt {splicer : Splicer} {source : Vector3} {window : Window} {cs : List Command}
    {ks : List Int32} (h : Emits (splicer.executeAt source window) () cs ks) :
    cs = [Piece.storeCommand splicer.cloner 0 source.x, Piece.storeCommand splicer.cloner 1 source.y,
      Piece.storeCommand splicer.cloner 2 source.z] ++ Item.commands (.splice splicer.cloner window) := by
  cases counted : narrow ((Int32.ofNat window.length).toInt - 1) with
  | ok reach =>
    exact h.commands_eq ((Emits.moveTo splicer.cloner source).seq (emits_spliceFrom splicer.cloner counted))
  | error e =>
    have never : Ensures (splicer.executeAt source window) fun _ => False :=
      .bind (.any _) fun _ _ => ensures_spliceFrom splicer.cloner counted
    exact (never _ _ _ (h { scopes := [[]] } (List.cons_ne_nil _ _))).elim

theorem count_placeholder_executeAt {splicer : Splicer} {source : Vector3} {window : Window}
    {cs : List Command} {ks : List Int32} (h : Emits (splicer.executeAt source window) () cs ks) :
    cs.count .placeholder = window.length := by
  rw [commands_executeAt h]
  simp [Item.commands, Item.spliceCommands, Item.copyToBuffer, Item.copyFromBuffer, Item.neutralize,
    Piece.storeCommand]

end Splicer

end BlockComputer
