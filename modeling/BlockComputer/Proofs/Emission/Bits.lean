import BlockComputer.Proofs.Emission.Priming

/-!
A bit slice keeps the bits that it names.

The divisor and the modulus of a slice are powers of two, read from constants that the initialization
sets; a quotient is rounded down, so a negative number loses its low bits like any other. The widest
slice, of all 31 bits below the sign, is accepted although `2 ^ 31` is no positive number of 32 bits: its
modulus is negative.
-/

namespace BlockComputer

def Session.Emitted (s t : Session) (cs : List Command) : Prop :=
  t.scopes = (s.append cs).scopes ∧ (s.scopes = [] → cs = [])

theorem Session.Emitted.unique {s t : Session} {cs ds : List Command} (first : s.Emitted t cs)
    (second : s.Emitted t ds) : cs = ds := by
  have same := first.1.symm.trans second.1
  cases scopes : s.scopes with
  | nil => rw [first.2 scopes, second.2 scopes]
  | cons top others => simpa [append, scopes] using same

/-- The step succeeds in the session, returns `a` and leaves `t`; what it emits are the commands. -/
structure Session.Gives {α : Type} (s : Session) (x : EmitM α) (a : α) (t : Session) (cs : List Command) :
    Prop where
  performed : perform x s = (.ok a, t)
  emitted : s.Emitted t cs

theorem Session.Gives.unique {α : Type} {s t t' : Session} {x : EmitM α} {a a' : α} {cs ds : List Command}
    (first : s.Gives x a t cs) (second : s.Gives x a' t' ds) : cs = ds := by
  obtain rfl : t = t' := congrArg Prod.snd (first.performed.symm.trans second.performed)
  exact first.emitted.unique second.emitted

theorem Emits.gives {α : Type} {x : EmitM α} {a : α} {cs : List Command} {ks : List Int32}
    (h : Emits x a cs ks) {s : Session} (opened : s.scopes ≠ []) :
    s.Gives x a ((s.memoize ks).append cs) cs := by
  refine ⟨h s opened, ?_, fun closed => absurd closed opened⟩
  rw [← Session.memoize_append_commands, Session.scopes_memoize]

section perform

variable {v : Variable} {skip length : UInt32} {last : Bool} {s t : Session}

theorem perform_emit_of_closed (closed : s.scopes = []) (c : Command) :
    perform (emit c) s = (.error (.error .noActiveScope), s) := by
  simp [emit, emitAll, perform_bind, closed]

theorem perform_readConstant_of_closed (closed : s.scopes = []) (v : Variable) (op : ScoreOp) (k : Int32) :
    perform (constant k >>= fun c => v.operateBy op c) s = (.error (.error .noActiveScope), s.memo k) := by
  rw [perform_bind, perform_constant]
  exact perform_emit_of_closed ((s.scopes_memo k).trans closed) _

theorem bitslice_bounds (accepted : perform (v.bitslice skip length last) s = (.ok (), t)) :
    length ≠ 0 ∧ skip.toNat + length.toNat ≤ 31 := by
  unfold Variable.bitslice at accepted
  by_cases wide : Nat.pow 2 32 ≤ skip.toNat + length.toNat
  · simp only [wide, if_true] at accepted
    cases accepted
  · by_cases refused : length = 0 ∨ 31 < skip.toNat + length.toNat
    · simp only [wide, refused, if_true, if_false] at accepted
      cases accepted
    · exact ⟨fun zero => refused (.inl zero), Nat.le_of_not_lt fun high => refused (.inr high)⟩

theorem bitslice_of_closed (closed : s.scopes = [])
    (accepted : perform (v.bitslice skip length last) s = (.ok (), t)) : skip = 0 ∧ last = true ∧ t = s := by
  obtain ⟨pos, top⟩ := bitslice_bounds accepted
  have narrow : ¬ Nat.pow 2 32 ≤ skip.toNat + length.toNat := Nat.not_le.2 (top.trans_lt (by decide))
  have valid : ¬ (length = 0 ∨ 31 < skip.toNat + length.toNat) :=
    fun refused => refused.elim pos (Nat.not_lt.2 top)
  have divides (k : Int32) :
      perform (v.operate .div (.literal k)) s = (.error (.error .noActiveScope), s.memo k) :=
    perform_readConstant_of_closed closed v .div k
  have reduces (k : Int32) :
      perform (v.operate .mod (.literal k)) s = (.error (.error .noActiveScope), s.memo k) :=
    perform_readConstant_of_closed closed v .mod k
  unfold Variable.bitslice at accepted
  simp only [narrow, valid, if_false] at accepted
  by_cases skips : 0 < skip
  · rw [if_pos skips, perform_bind, divides] at accepted
    cases accepted
  · rw [if_neg skips] at accepted
    cases last with
    | false =>
      rw [if_pos Bool.not_false, reduces] at accepted
      cases accepted
    | true =>
      cases accepted
      exact ⟨UInt32.le_zero_iff.1 (UInt32.not_lt.1 skips), rfl, rfl⟩

theorem emitted_bitslice (accepted : perform (v.bitslice skip length last) s = (.ok (), t)) :
    s.Emitted t (v.sliceCommands skip.toNat length.toNat last) ∧
      t.init = (s.memoize (Variable.sliceConstants skip.toNat length.toNat last)).init := by
  by_cases closed : s.scopes = []
  · obtain ⟨rfl, rfl, rfl⟩ := bitslice_of_closed closed accepted
    have nothing : v.sliceCommands (0 : UInt32).toNat length.toNat true = [] := rfl
    rw [nothing]
    exact ⟨⟨by rw [Session.append_nil], fun _ => rfl⟩, rfl⟩
  · obtain ⟨pos, top⟩ := bitslice_bounds accepted
    have gives := (Emits.bitslice v skip length last pos top).gives closed
    obtain rfl : t = _ := congrArg Prod.snd (accepted.symm.trans gives.performed)
    exact ⟨gives.emitted, Session.init_append _ _⟩

end perform

section bits

variable {n : Int32} {skip length : Nat}

theorem toInt_sliceScore (n : Int32) (skip : Nat) (narrow : length ≤ 30) :
    (sliceScore n skip length false).toInt = n.toInt / 2 ^ skip % 2 ^ length := by
  have power : (0 : Int) < 2 ^ length := Int.pow_pos (by decide)
  have low := Int.emod_nonneg (n.toInt / 2 ^ skip) power.ne'
  have high := Int.emod_lt_of_pos (n.toInt / 2 ^ skip) power
  have bound := toInt_two_pow narrow ▸ Int32.toInt_lt (Int32.ofNat (2 ^ length))
  rw [sliceScore_eq n skip narrow, Int32.toInt_ofInt_of_le (by omega) (by omega)]

/-- A remainder of `2 ^ 31` is taken as one of `-2 ^ 31`. -/
theorem toInt_sliceScore_widest (n : Int32) :
    (sliceScore n 0 31 false).toInt = n.toInt % 2 ^ 31 - if 2 ^ 31 ∣ n.toInt then 0 else 2 ^ 31 := by
  have modulus : (Int32.ofNat (2 ^ 31)).toInt = -2 ^ 31 := by decide
  have quotient : (Int32.ofInt (n.toInt / 2 ^ 0)).toInt = n.toInt := by
    rw [toInt_ofInt_quotient, Int.pow_zero, Int.ediv_one]
  rw [sliceScore, if_neg Bool.false_ne_true, ScoreOp.apply_mod_of_neg _ _ (by rw [modulus]; decide), modulus,
    quotient, Int.emod_neg]
  simp only [Int.neg_dvd]
  have low : 0 ≤ n.toInt % 2 ^ 31 := Int.emod_nonneg _ (by decide)
  have high : n.toInt % 2 ^ 31 < 2 ^ 31 := Int.emod_lt_of_pos _ (by decide)
  split
  · rw [Int32.toInt_ofInt_of_le (by omega) (by omega)]
    omega
  · rw [Int32.toInt_ofInt_of_le (by omega) (by omega)]
    omega

/-- A slice leaves the bits that it names, unless it is the widest one and the number has such bits. -/
theorem toInt_sliceScore_eq_iff (top : skip + length ≤ 31) :
    (sliceScore n skip length false).toInt = n.toInt / 2 ^ skip % 2 ^ length ↔
      length ≤ 30 ∨ 2 ^ 31 ∣ n.toInt := by
  by_cases narrow : length ≤ 30
  · exact iff_of_true (toInt_sliceScore n skip narrow) (.inl narrow)
  · obtain ⟨rfl, rfl⟩ : skip = 0 ∧ length = 31 := by omega
    rw [toInt_sliceScore_widest, Int.pow_zero, Int.ediv_one]
    split
    · next divides => exact iff_of_true (Int.sub_zero _) (.inr divides)
    · next rest =>
      refine iff_of_false (fun same => ?_) (fun holds => holds.elim narrow rest)
      omega

end bits

/-- An accepted slice of a foreign variable sets it to the bits that it names, for negative numbers too,
and changes nothing else: the world holds the number `n`, and in the constants what the initialization left
there. A slice that is promised not to need a remainder leaves the same, where the promise is kept. Only the
slice of all 31 bits leaves something else, unless these bits are all zero. -/
theorem bitslice_keeps_bits {α : Type} {x : EmitM α} (client : Client x {}) {v : Variable}
    (foreign : v.IsForeign) {skip length : UInt32} {last : Bool} {t : Session}
    (accepted : perform (v.bitslice skip length last) (perform x {}).2 = (.ok (), t)) :
    ∃ cs, (perform x {}).2.Emitted t cs ∧ ∀ (w u : World) (p q : Site) (n : Int32),
      (∀ k, u.score (constantNamed k) = (w.runAll p t.init).score (constantNamed k)) →
      u.scores v = some n →
        let bits := n.toInt / 2 ^ skip.toNat % 2 ^ length.toNat
        0 ≤ bits ∧ bits < 2 ^ length.toNat ∧ ∃ m : Int32, u.runAll q cs = u.setScore v m ∧
          (last = false → (m.toInt = bits ↔ length ≤ 30 ∨ 2 ^ 31 ∣ n.toInt)) ∧
          (last = true → 0 ≤ n.toInt → n.toInt < 2 ^ (skip.toNat + length.toNat) → m.toInt = bits) := by
  obtain ⟨pos, top⟩ := bitslice_bounds accepted
  obtain ⟨emitted, init⟩ := emitted_bitslice accepted
  refine ⟨_, emitted, fun w u p q n same value => ?_⟩
  have power : (0 : Int) < 2 ^ length.toNat := Int.pow_pos (by decide)
  have knows : u.Knows (Variable.sliceConstants skip.toNat length.toNat last) := fun k mem => by
    rw [same, init]
    exact client.knows_memoize _ p w k ((Session.mem_constants_memoize _ _).2 (.inr mem))
  have positive : length.toNat ≠ 0 := fun zero => pos (UInt32.toNat_inj.1 zero)
  refine ⟨Int.emod_nonneg _ power.ne', Int.emod_lt_of_pos _ power, _,
    World.runAll_sliceCommands value (by omega) knows foreign q, ?_, ?_⟩
  · rintro rfl
    exact toInt_sliceScore_eq_iff top
  · rintro rfl nonneg small
    rw [toInt_sliceScore_last, Int.emod_eq_of_lt]
    · exact Int.ediv_nonneg nonneg (Int.pow_nonneg (by decide))
    · refine Int.ediv_lt_of_lt_mul (Int.pow_pos (by decide)) ?_
      rwa [← Int.pow_add, Nat.add_comm]

def numberClient (n : Int32) : EmitM Variable := do
  enter
  Variable.create "v" n

theorem isForeign_v : Variable.IsForeign ⟨"v"⟩ :=
  Variable.isForeign_of_isWord (by decide)

/-- Four bits of a negative number: -300 is -19 * 16 + 4, and -19 is -2 * 16 + 13. -/
theorem bitslice_keeps_bits_negative :
    let s := (perform (numberClient (-300)) {}).2
    let t := (perform (Variable.bitslice ⟨"v"⟩ 4 4 false : EmitM Unit) s).2
    Client (numberClient (-300)) {} ∧ Variable.IsForeign ⟨"v"⟩ ∧
      perform (Variable.bitslice ⟨"v"⟩ 4 4 false) s = (.ok (), t) ∧
      ∃ cs, s.Emitted t cs ∧ ∀ (w : World) (p q : Site),
        let u := (w.runAll p t.init).setScore ⟨"v"⟩ (-300)
        u.runAll q cs = u.setScore ⟨"v"⟩ 13 := by
  intro s t
  have client : Client (numberClient (-300)) {} := .bind (.enter _) fun _ _ _ => .create isForeign_v _ _
  have accepted : perform (Variable.bitslice ⟨"v"⟩ 4 4 false) s = (.ok (), t) := rfl
  obtain ⟨cs, emitted, keeps⟩ := bitslice_keeps_bits client isForeign_v accepted
  refine ⟨client, isForeign_v, accepted, cs, emitted, ?_⟩
  intro w p q u
  have kept (k : Int32) := World.score_setScore_of_ne (w.runAll p t.init) (isForeign_v k).symm (-300)
  obtain ⟨-, -, m, ran, bits, -⟩ := keeps w u p q (-300) kept (World.scores_setScore_self _ _ _)
  have thirteen : m.toInt = (13 : Int32).toInt := (bits rfl).2 (.inl (by decide))
  rw [ran, Int32.toInt_inj.1 thirteen]

/-- The slice of all 31 bits below the sign is accepted, and makes a positive number negative. -/
theorem bitslice_turns_negative :
    let client : EmitM Unit := numberClient 5 >>= fun v => v.bitslice 0 31 false
    let s := (perform client {}).2
    (perform client {}).1 = .ok () ∧ ∀ (w : World) (p q : Site),
      (((w.runAll p s.init).runAll q s.scopes.flatten).score ⟨"v"⟩).toInt = 5 - 2 ^ 31 ∧
        (5 - 2 ^ 31 : Int) ≠ 5 / 2 ^ 0 % 2 ^ 31 := by
  intro client s
  have init : s.init = [.addObjective, setNumber (Int32.ofNat (2 ^ 31))] := rfl
  have emitted : s.scopes.flatten = .setScore ⟨"v"⟩ 5 :: Variable.sliceCommands ⟨"v"⟩ 0 31 false := rfl
  refine ⟨rfl, fun w p q => ⟨?_, by decide⟩⟩
  have knows : ((w.runAll p s.init).setScore ⟨"v"⟩ 5).Knows (Variable.sliceConstants 0 31 false) := by
    rw [init]
    exact .setForeign (List.forall_mem_singleton.2 (World.score_setScore_self _ _ _)) isForeign_v 5
  rw [emitted, World.runAll_cons, Command.after_setScore,
    World.runAll_sliceCommands (World.scores_setScore_self _ _ _) (by decide) knows isForeign_v,
    World.score_setScore_self, toInt_sliceScore_widest]
  decide

end BlockComputer
