import BlockComputer.Proofs.Emission.Holders
import BlockComputer.Proofs.Emission.Operands
import BlockComputer.Proofs.Emission.Signed

/-!
Computing on a copy.

A computation in place starts from one score and leaves its result there. On a copy it starts from a new
variable, whose name is in use nowhere and is a word, so that no variable in use and no constant is written
instead of it. What is computed depends only on the score that it starts from and on the operand, and
neither is touched by the copying. So the copy holds what the computation in place would have left, and every
other score is spared, unless the operator is a swap: it writes to both its sides, on a copy too.
-/

namespace BlockComputer

theorem World.setScore_comm (w : World) {u v : Variable} (ne : u ≠ v) (m n : Int32) :
    (w.setScore u m).setScore v n = (w.setScore v n).setScore u m := by
  simp only [World.setScore, Function.update_comm ne]

theorem Command.Respects.operateForeign {v u : Variable} (foreign : v.IsForeign) (foreign' : u.IsForeign)
    (op : ScoreOp) {ks : List Int32} : (Command.operateScore v op u).Respects ks := by
  have both : ∀ y ∈ [v, u], y.IsForeign := 
    List.forall_mem_cons.2 ⟨foreign, List.forall_mem_singleton.2 foreign'⟩
  refine ⟨fun y mem => both y ?_, fun k mem => absurd rfl (both _ mem k), fun _ same => nomatch same⟩
  replace mem : y ∈ if op = .swap then [v, u] else [v] := mem
  split at mem
  · exact mem
  · exact List.mem_cons.2 (.inl (List.mem_singleton.1 mem))

/-- What can be computed in place and on a copy. -/
inductive Computation where
  | operate (op : ScoreOp) (source : Source)
  | slice (skip length : UInt32) (last : Bool)
  | extend (width : UInt32)

namespace Computation

def inPlace (form : Computation) (v : Variable) : EmitM Unit :=
  match form with
  | operate op source => v.operate op source
  | slice skip length last => v.bitslice skip length last
  | extend width => v.signExtend width

def onCopy (form : Computation) (v : Variable) : EmitM Variable :=
  match form with
  | operate op source => v.operated op source
  | slice skip length last => v.sliced skip length last
  | extend width => v.signExtended width

/-- Why the computation is refused, whatever the session is. -/
def refusal? (form : Computation) (v : Variable) : Option Failure :=
  match form with
  | operate .swap (.literal k) => some (.error (.literalSwap v.name k))
  | operate _ _ => none
  | slice skip length _ =>
    let top := skip.toNat + length.toNat
    if Nat.pow 2 32 ≤ top then some .crash
    else if length = 0 ∨ 31 < top then some (.error (.invalidWidth top))
    else none
  | extend width => if width = 0 ∨ 30 < width then some (.error (.invalidWidth width.toNat)) else none

def operand? : Computation → Option Variable
  | operate _ (.variable y) => some y
  | _ => none

def commands (form : Computation) (v : Variable) : List Command :=
  match form with
  | operate op (.literal k) => [v.literalCommand op k]
  | operate op (.variable y) => [.operateScore v op y]
  | slice skip length last => v.sliceCommands skip.toNat length.toNat last
  | extend width => [v.extendCommand width.toNat]

def constants : Computation → List Int32
  | operate op (.literal k) => Variable.literalConstants op k
  | operate _ (.variable _) => []
  | slice skip length last => Variable.sliceConstants skip.toNat length.toNat last
  | extend _ => []

def result (form : Computation) (w : World) (n : Int32) : Int32 :=
  match form with
  | operate op (.literal k) => op.apply n k
  | operate op (.variable y) => op.apply n (w.score y)
  | slice skip length last => sliceScore n skip.toNat length.toNat last
  | extend width => extendScore n width.toNat

/-- What a computation from a number writes besides its result: the other side of a swap. -/
def aside (form : Computation) (n : Int32) (w : World) : World :=
  match form with
  | operate .swap (.variable y) => w.setScore y n
  | _ => w

theorem onCopy_eq (form : Computation) (v : Variable) : form.onCopy v = (do
    let copy ← v.cloned
    form.inPlace copy
    return copy) := by
  cases form <;> rfl

section accepted

variable {form : Computation} {v : Variable}

theorem ne_swap_of_accepted {op : ScoreOp} {k : Int32} (accepted : (operate op (.literal k)).refusal? v = none) :
    op ≠ .swap := by
  rintro rfl
  cases accepted

theorem slice_bounds {skip length : UInt32} {last : Bool}
    (accepted : (slice skip length last).refusal? v = none) :
    length ≠ 0 ∧ skip.toNat + length.toNat ≤ 31 := by
  simp only [refusal?] at accepted
  split at accepted
  · cases accepted
  · split at accepted
    · cases accepted
    · next valid => exact ⟨fun zero => valid (.inl zero), Nat.le_of_not_lt fun high => valid (.inr high)⟩

theorem extend_bounds {width : UInt32} (accepted : (extend width).refusal? v = none) :
    width ≠ 0 ∧ width ≤ 30 := by
  simp only [refusal?] at accepted
  split at accepted
  · cases accepted
  · next valid => exact ⟨fun zero => valid (.inl zero), UInt32.not_lt.1 fun high => valid (.inr high)⟩

theorem refusal?_eq_none_iff (v u : Variable) : form.refusal? v = none ↔ form.refusal? u = none := by
  cases form with
  | operate op source => cases op <;> cases source <;> simp [refusal?]
  | slice | extend => exact Iff.rfl

theorem perform_refused {e : Failure} (refused : form.refusal? v = some e) (s : Session) :
    perform (form.inPlace v) s = (.error e, s) := by
  cases form with
  | operate op source =>
    cases source with
    | literal k =>
      cases op with
      | swap =>
        cases refused
        rfl
      | set | add | sub | mul | div | mod | min | max => cases refused
    | «variable» y => cases op <;> cases refused
  | slice skip length last =>
    simp only [inPlace, Variable.bitslice]
    simp only [refusal?] at refused
    split at refused
    · next wide =>
      cases refused
      rw [if_pos wide]
      rfl
    · next narrow =>
      split at refused
      · next invalid =>
        cases refused
        rw [if_neg narrow, if_pos invalid]
        rfl
      · cases refused
  | extend width =>
    simp only [inPlace, Variable.signExtend]
    simp only [refusal?] at refused
    split at refused
    · next invalid =>
      cases refused
      rw [if_pos invalid]
      rfl
    · cases refused

theorem emits (accepted : form.refusal? v = none) :
    Emits (form.inPlace v) () (form.commands v) form.constants := by
  cases form with
  | operate op source =>
    cases source with
    | literal k => exact .operateLiteral v k (ne_swap_of_accepted accepted)
    | «variable» y => exact .operateVariable v y op
  | slice skip length last =>
    obtain ⟨pos, top⟩ := slice_bounds accepted
    exact .bitslice v skip length last pos top
  | extend width =>
    obtain ⟨pos, high⟩ := extend_bounds accepted
    exact .signExtend v width pos high

end accepted

section world

variable {form : Computation} {v c : Variable} {w : World} {n : Int32}

theorem aside_operate {op : ScoreOp} (ne : op ≠ .swap) (source : Source) (n : Int32) (w : World) :
    (operate op source).aside n w = w := by
  cases op with
  | swap => exact absurd rfl ne
  | set | add | sub | mul | div | mod | min | max => rfl

/-- A computation sets its score to the result, and writes nothing else but the other side of a swap. -/
theorem runAll_commands (accepted : form.refusal? v = none) (foreign : v.IsForeign)
    (knows : w.Knows form.constants) (value : w.scores v = some n) (p : Site) :
    w.runAll p (form.commands v) = (form.aside n w).setScore v (form.result w n) := by
  have score : w.score v = n := by rw [World.score, value, Option.getD_some]
  cases form with
  | operate op source =>
    cases source with
    | literal k =>
      have ne := ne_swap_of_accepted accepted
      rw [aside_operate ne, commands, World.runAll_cons, World.runAll_nil, after_literalCommand ne knows, score]
      rfl
    | «variable» y =>
      by_cases swap : op = .swap
      · subst swap score
        rfl
      · rw [aside_operate swap, commands, World.runAll_cons, World.runAll_nil,
          Command.after_operateScore _ _ _ _ swap, score]
        rfl
  | slice skip length last =>
    have top := (slice_bounds accepted).2
    have pos : length.toNat ≠ 0 := fun zero => (slice_bounds accepted).1 (UInt32.toNat_inj.1 zero)
    exact World.runAll_sliceCommands value (by omega) knows foreign p
  | extend width => exact after_extendCommand value (extend_bounds accepted).2 p.centre

theorem result_setScore (other : ∀ y, form.operand? = some y → y ≠ c) (w : World) (m n : Int32) :
    form.result (w.setScore c m) n = form.result w n := by
  cases form with
  | operate op source =>
    cases source with
    | literal k => rfl
    | «variable» y => exact congrArg (op.apply n) (World.score_setScore_of_ne w (other y rfl) m)
  | slice | extend => rfl

theorem aside_setScore (other : ∀ y, form.operand? = some y → y ≠ c) (w : World) (m n : Int32) :
    form.aside n (w.setScore c m) = (form.aside n w).setScore c m := by
  cases form with
  | operate op source =>
    by_cases swap : op = .swap
    · subst swap
      cases source with
      | literal k => rfl
      | «variable» y => exact World.setScore_comm w (other y rfl).symm m n
    · rw [aside_operate swap, aside_operate swap]
  | slice | extend => rfl

end world

theorem client {form : Computation} {v : Variable} (foreign : v.IsForeign)
    (operand : ∀ y, form.operand? = some y → y.IsForeign) (s : Session) : Client (form.inPlace v) s := by
  cases form with
  | operate op source =>
    cases source with
    | literal k => exact .operate foreign op k s
    | «variable» y =>
      exact .emitAll (List.forall_mem_singleton.2 (.operateForeign foreign (operand y rfl) op))
  | slice skip length last => exact .bitslice foreign skip length last s
  | extend width => exact .signExtend foreign width s

end Computation

def Variable.copyCommands (v copy : Variable) : List Command :=
  [.setScore copy 0, .operateScore copy .set v]

namespace Session

def spare (s : Session) : Variable :=
  ⟨s.freshName "var_"⟩

theorem isForeign_spare (s : Session) : s.spare.IsForeign :=
  Variable.isForeign_of_isWord (isWord_freshName s)

theorem ne_spare {s : Session} {v : Variable} (used : v.name ∈ s.names) : v ≠ s.spare := by
  rintro rfl
  exact s.freshName_notMem "var_" used

def copied (s : Session) (v : Variable) : Session :=
  (s.register [s.spare.name]).append (v.copyCommands s.spare)

theorem scopes_copied (s : Session) (v : Variable) :
    (s.copied v).scopes = (s.append (v.copyCommands s.spare)).scopes := by
  rw [copied, ← append_register]
  rfl

end Session

section copying

variable {form : Computation} {v : Variable} {s : Session}

theorem perform_cloned (v : Variable) (s : Session) : perform v.cloned s =
    if s.scopes = [] then (.error (.error .noActiveScope), s.register [s.spare.name])
    else (.ok s.spare, s.copied v) := by
  have unused : s.isRegistered s.spare.name = false := decide_eq_false (s.freshName_notMem "var_")
  have made : perform Variable.temporary s = perform (Variable.create s.spare.name 0) s := rfl
  rw [Variable.cloned, perform_bind, made, perform_create, unused, if_neg Bool.false_ne_true]
  by_cases closed : s.scopes = []
  · rw [if_pos closed, if_pos closed]
  · have still := Session.scopes_append_ne_nil (s.register [s.spare.name]) [.setScore s.spare 0] closed
    rw [if_neg closed, if_neg closed]
    refine ((Emits.assign s.spare v).bind (.pure s.spare) _ still).trans ?_
    rw [Session.copied, Variable.copyCommands, List.append_nil, List.append_nil, Session.memoize_nil,
      Session.append_append]
    rfl

theorem perform_onCopy (form : Computation) (v : Variable) (opened : s.scopes ≠ []) :
    perform (form.onCopy v) s = perform (do form.inPlace s.spare; return s.spare) (s.copied v) := by
  rw [form.onCopy_eq, perform_bind, perform_cloned, if_neg opened]

/-- A refused computation leaves its copy behind. -/
theorem perform_onCopy_of_refused (opened : s.scopes ≠ []) {e : Failure}
    (refused : form.refusal? s.spare = some e) :
    perform (form.onCopy v) s = (.error e, s.copied v) := by
  rw [perform_onCopy form v opened, perform_bind, Computation.perform_refused refused]

theorem gives_onCopy (accepted : form.refusal? v = none) (opened : s.scopes ≠ []) :
    s.Gives (form.onCopy v) s.spare (((s.copied v).memoize form.constants).append (form.commands s.spare))
      (v.copyCommands s.spare ++ form.commands s.spare) := by
  have emits := (Computation.emits ((form.refusal?_eq_none_iff v s.spare).1 accepted)).seq (Emits.pure s.spare)
  have still : (s.copied v).scopes ≠ [] := s.scopes_copied v ▸ s.scopes_append_ne_nil _ opened
  refine ⟨?_, ?_, fun closed => absurd closed opened⟩
  · rw [perform_onCopy form v opened, emits _ still, List.append_nil, List.append_nil]
  · rw [← Session.memoize_append_commands, Session.scopes_memoize, Session.copied, Session.append_append,
      ← Session.append_register]
    rfl

theorem Client.cloned (foreign : v.IsForeign) (s : Session) : Client v.cloned s := by
  have named : Client Variable.temporary s := by
    refine .bind (.bind (.look s) fun _ _ _ => .pure _ _) fun name t ran => ?_
    cases ran
    exact .create s.isForeign_spare 0 _
  refine .bind named fun copy t ran => ?_
  have fresh : copy.IsForeign := isForeign_of_temporary (congrArg Prod.fst ran)
  exact .bind (.emitAll (List.forall_mem_singleton.2 (.operateForeign fresh foreign .set))) fun _ _ _ => .pure _ _

theorem Client.onCopy (foreign : v.IsForeign) (operand : ∀ y, form.operand? = some y → y.IsForeign) (s : Session) :
    Client (form.onCopy v) s := by
  rw [form.onCopy_eq]
  refine .bind (.cloned foreign s) fun copy t ran => ?_
  have fresh : copy.IsForeign := by
    rw [perform_cloned] at ran
    split at ran
    · cases ran
    · cases ran
      exact s.isForeign_spare
  exact .bind (form.client fresh operand t) fun _ _ _ => .pure _ _

theorem runAll_onCopy {c : Variable} {u : World} {n : Int32} (accepted : form.refusal? c = none)
    (foreign : c.IsForeign) (knows : u.Knows form.constants) (value : u.scores v = some n) (ne : v ≠ c)
    (other : ∀ y, form.operand? = some y → y ≠ c) (p : Site) :
    u.runAll p (v.copyCommands c ++ form.commands c) = (form.aside n u).setScore c (form.result u n) := by
  have score : (u.setScore c 0).score v = n := by
    rw [World.score_setScore_of_ne u ne, World.score, value, Option.getD_some]
  have copied : u.runAll p (v.copyCommands c) = u.setScore c n := by
    rw [Variable.copyCommands, World.runAll_cons, World.runAll_cons, World.runAll_nil, Command.after_setScore,
      Command.after_operateScore _ _ _ _ (by decide), score, World.setScore_setScore]
    rfl
  -- the copy is no operand and no constant, so the computation does the same as it would in front of it
  rw [World.runAll_append, copied, Computation.runAll_commands accepted foreign (knows.setForeign foreign n)
    (World.scores_setScore_self _ _ _), Computation.result_setScore other, Computation.aside_setScore other,
    World.setScore_setScore]

end copying

/-- In a session with an open scope a computation on a copy of a foreign variable in use does, behind the
initialization, what the computation in place would do, but what that would leave in the variable lands in a new
one, whose name was not in use, and besides it only the other side of a swap is written. The operand is a number
or a foreign variable in use, the variable itself too. Every other computation is refused. -/
theorem copies_spare_others {α : Type} {x : EmitM α} (client : Client x {}) {v : Variable}
    (foreign : v.IsForeign) (opened : (perform x {}).2.scopes ≠ []) (used : v.name ∈ (perform x {}).2.names) :
    let s := (perform x {}).2
    ∀ form : Computation, (∀ y, form.operand? = some y → y.name ∈ s.names ∧ y.IsForeign) →
      (form.refusal? v = none → ∃ copy t cs t' ds,
        s.Gives (form.onCopy v) copy t cs ∧ s.Gives (form.inPlace v) () t' ds ∧
        copy.name ∉ s.names ∧ copy.IsForeign ∧
        ∀ (u : World) (p q : Site) (n : Int32), u.IsInitialized t → u.scores v = some n →
          u.runAll p cs = (form.aside n u).setScore copy ((u.runAll q ds).score v)) ∧
      (form.refusal? v ≠ none → ∃ e t, perform (form.onCopy v) s = (.error e, t)) := by
  intro s form operands
  have steps : Client (form.onCopy v) s := .onCopy foreign (fun y reads => (operands y reads).2) s
  refine ⟨fun accepted => ?_, fun refused => ?_⟩
  · have onCopy := gives_onCopy accepted opened
    have inPlace := (Computation.emits accepted).gives opened
    refine ⟨_, _, _, _, _, onCopy, inPlace, s.freshName_notMem "var_", s.isForeign_spare, ?_⟩
    intro u p q n initialized value
    have primed := steps.isPrimed client.isPrimed_new
    rw [onCopy.performed] at primed
    have knows : u.Knows form.constants := initialized.knows_memoize primed
    rw [Computation.runAll_commands accepted foreign knows value, World.score_setScore_self]
    exact runAll_onCopy ((form.refusal?_eq_none_iff v s.spare).1 accepted) s.isForeign_spare knows value
      (Session.ne_spare used) (fun y reads => Session.ne_spare (operands y reads).1) p
  · obtain ⟨e, cause⟩ := Option.ne_none_iff_exists'.1 (mt (form.refusal?_eq_none_iff v s.spare).2 refused)
    exact ⟨e, s.copied v, perform_onCopy_of_refused opened cause⟩

/-- A variable that is taken away from a copy of itself. -/
theorem copies_spare_others_itself :
    let s := (perform (numberClient 5) {}).2
    let form : Computation := .operate .sub (.variable ⟨"v"⟩)
    Client (numberClient 5) {} ∧ Variable.IsForeign ⟨"v"⟩ ∧ s.scopes ≠ [] ∧ "v" ∈ s.names ∧
      (∀ y, form.operand? = some y → y.name ∈ s.names ∧ y.IsForeign) ∧ form.refusal? ⟨"v"⟩ = none ∧
      ∃ copy t cs, s.Gives (form.onCopy ⟨"v"⟩) copy t cs ∧ ∀ (w : World) (p q : Site),
        let u := (w.runAll p t.init).setScore ⟨"v"⟩ 5
        u.runAll q cs = u.setScore copy 0 := by
  intro s form
  have client : Client (numberClient 5) {} := .bind (.enter _) fun _ _ _ => .create isForeign_v _ _
  have opened : s.scopes ≠ [] := by decide
  have used : "v" ∈ s.names := by decide
  have operands : ∀ y, form.operand? = some y → y.name ∈ s.names ∧ y.IsForeign := by
    rintro y ⟨⟩
    exact ⟨used, isForeign_v⟩
  obtain ⟨copy, t, cs, t', ds, onCopy, inPlace, -, -, runs⟩ :=
    (copies_spare_others client isForeign_v opened used form operands).1 rfl
  refine ⟨client, isForeign_v, opened, used, operands, rfl, copy, t, cs, onCopy, fun w p q => ?_⟩
  intro u
  have own := inPlace.unique ((Emits.operateVariable ⟨"v"⟩ ⟨"v"⟩ .sub).gives opened)
  rw [runs u q q 5 (.of_foreign isForeign_v w p 5) (World.scores_setScore_self _ _ _), own, World.runAll_cons,
    World.runAll_nil, Command.after_operateScore _ _ _ _ (by decide), World.score_setScore_self,
    World.score_setScore_self]
  rfl

def pairClient : EmitM Unit := do
  enter
  let _ ← Variable.create "v" 3
  let _ ← Variable.create "w" 5

/-- A swap on a copy makes its operand the variable that was copied. -/
theorem operated_swap_writes_operand :
    let s := (perform pairClient {}).2
    ∃ t cs, s.Gives (Variable.operated ⟨"v"⟩ .swap (.variable ⟨"w"⟩)) ⟨"var_"⟩ t cs ∧
      ∀ (w : World) (p q : Site), let u := w.runAll p s.scopes.flatten
        u.score ⟨"w"⟩ = 5 ∧ (u.runAll q cs).score ⟨"w"⟩ = 3 := by
  intro s
  have scope : s.scopes.flatten = [.setScore ⟨"v"⟩ 3, .setScore ⟨"w"⟩ 5] := rfl
  have swapped := @gives_onCopy (.operate .swap (.variable ⟨"w"⟩)) ⟨"v"⟩ s rfl (by decide)
  refine ⟨_, _, swapped, fun w p q => ?_⟩
  rw [scope]
  exact ⟨World.score_setScore_self .., rfl⟩

end BlockComputer
