import BlockComputer.Proofs.Emission.Log

/-!
Who holds which score.

Variables and constants share one table of scores, and each kind has a register of its own. The names in
use keep the variables apart from each other, and the table of constants the constants. Nothing keeps a
variable from the score of a constant but its name: a variable that is named like a number holds the score
that the constant holds.
-/

namespace BlockComputer

/-- The variables that are live behind an event: a variable is live from its creation until its name is
given back. -/
def Event.liveAfter (live : List Variable) : Event → List Variable
  | .created v => live ++ [v]
  | .freed name => live.erase ⟨name⟩
  | _ => live

def liveVariables (log : List Event) : List Variable :=
  log.foldl Event.liveAfter []

/-- The names in use and the constants are listed once each, and so are the live variables, whose names are
in use. -/
structure Session.Registers (s : Session) (live : List Variable) : Prop where
  names : s.names.Nodup
  constants : s.constants.Nodup
  nodup : live.Nodup
  inUse : ∀ v ∈ live, v.name ∈ s.names

namespace Session.Registers

variable {s t : Session} {live : List Variable}

theorem empty : ({} : Session).Registers [] :=
  ⟨List.nodup_nil, List.nodup_nil, List.nodup_nil, List.forall_mem_nil _⟩

theorem congr (h : s.Registers live) (names : t.names = s.names) (constants : t.constants = s.constants) :
    t.Registers live :=
  ⟨names ▸ h.names, constants ▸ h.constants, h.nodup, names ▸ h.inUse⟩

theorem named (h : s.Registers live) {name : String} (free : name ∉ s.names) :
    (s.register [name]).Registers live where
  names := nodup_append_singleton h.names free
  constants := h.constants
  nodup := h.nodup
  inUse v mem := List.mem_append_left _ (h.inUse v mem)

theorem created (h : s.Registers live) {name : String} (free : name ∉ s.names) :
    (s.register [name]).Registers (live ++ [⟨name⟩]) where
  names := (h.named free).names
  constants := h.constants
  nodup := nodup_append_singleton h.nodup fun mem => free (h.inUse _ mem)
  inUse := List.forall_mem_append.2 ⟨(h.named free).inUse,
    List.forall_mem_singleton.2 (List.mem_append_right _ (List.mem_singleton_self name))⟩

theorem freed (h : s.Registers live) (name : String) :
    ({ s with names := s.names.erase name } : Session).Registers (live.erase ⟨name⟩) where
  names := h.names.erase name
  constants := h.constants
  nodup := h.nodup.erase _
  inUse v mem := by
    obtain ⟨ne, inside⟩ := h.nodup.mem_erase_iff.1 mem
    exact h.names.mem_erase_iff.2 ⟨fun same => ne (congrArg Variable.mk same), h.inUse v inside⟩

theorem memoized (h : s.Registers live) {k : Int32} (new : k ∉ s.constants) :
    ({ s with constants := s.constants ++ [k] } : Session).Registers live :=
  ⟨h.names, nodup_append_singleton h.constants new, h.nodup, h.inUse⟩

end Session.Registers

theorem Logs.registers {α : Type} {x : EmitM α} {s : Session} {log : List Event} (h : Logs x s log)
    {live : List Variable} (sound : s.Registers live) :
    (perform x s).2.Registers (log.foldl Event.liveAfter live) := by
  induction h generalizing live with
  | pure | fail | look => exact sound
  | bind _ ran _ ih ih' =>
    have first := ih sound
    rw [ran] at first
    rw [perform_bind, ran, List.foldl_append]
    exact ih' first
  | stop _ ran ih =>
    have first := ih sound
    rw [ran] at first
    rw [perform_bind, ran]
    exact first
  | attempt _ ih =>
    rw [perform_attempt_snd]
    exact ih sound
  | registerName name s =>
    rw [perform_registerName, Session.registering]
    split
    · exact sound
    · next free => exact sound.named (by simpa [Session.isRegistered] using free)
  | freeName name s =>
    rw [perform_freeName, Session.freeing]
    split
    · exact sound.freed name
    · exact sound
  | newTag | enter | unwindTo | extendInit => exact sound.congr rfl rfl
  | leave s =>
    rcases perform_leave s with ⟨none_, left⟩ | ⟨commands, others, scopes, left⟩
    · rw [left, Session.leaving, if_pos none_]
      exact sound
    · rw [left, Session.leaving, if_neg (by simp [scopes])]
      exact sound.congr rfl rfl
  | emitAll commands s =>
    rw [perform_emitAll_snd, Session.emitting]
    split <;> exact sound.congr (s.names_append _) (s.constants_append _)
  | constant number s =>
    rw [perform_constant, Session.memo, Session.memoizing]
    split
    · exact sound
    · next new => exact (sound.memoized new).congr rfl rfl
  | create name value s =>
    rw [perform_create, Session.creating]
    split
    · exact sound
    · next unused =>
      have free : name ∉ s.names := by simpa [Session.isRegistered] using unused
      split
      · exact sound.named free
      · exact (sound.created free).congr (Session.names_append _ _) (Session.constants_append _ _)

def Variable.sets (v : Variable) (op : ScoreOp) : Source → List Variable
  | .variable u => if op = .swap then [v, u] else [v]
  | .literal _ => [v]

theorem Variable.notMem_sets {u v : Variable} {op : ScoreOp} {source : Source} (ne : u ≠ v)
    (apart : op = .swap → source ≠ .variable u) : u ∉ v.sets op source := by
  match source with
  | .literal k => exact fun mem => ne (List.mem_singleton.1 mem)
  | .variable w =>
    change u ∉ if op = .swap then [v, w] else [v]
    split
    · next swap =>
      intro mem
      rcases List.mem_cons.1 mem with same | mem
      · exact ne same
      · exact apart swap (congrArg Source.variable (List.mem_singleton.1 mem).symm)
    · exact fun mem => ne (List.mem_singleton.1 mem)

theorem Variable.Applies.staysIn {v : Variable} {op : ScoreOp} {source : Source} {cs : List Command}
    {ks : List Int32} (h : v.Applies op source cs ks) : cs.all (Command.staysIn (v.sets op source)) := by
  have single {c : Command} {vs : List Variable} (stays : c.staysIn vs) : [c].all (Command.staysIn vs) := by
    rwa [List.all_cons, List.all_nil, Bool.and_true]
  cases h with
  | set => exact single (by simp [sets, Command.staysIn_iff, Command.isPlain, Command.touches, Command.writes])
  | change op k amount => exact single (Command.staysIn_addCommand v amount)
  | compute => exact single (by simp [sets, Command.staysIn_iff, Command.isPlain, Command.touches, Command.writes])
  | read ne k l => exact single (Command.staysIn_operateScore v _ ne)
  | refuse => rfl

theorem isWord_freshName (s : Session) : Variable.isWord ⟨s.freshName "var_"⟩ := by
  rcases s.freshName_eq_or "var_" with same | ⟨n, same⟩
  · rw [same]
    rfl
  · rw [same, Variable.isWord, String.toList_append]
    rfl

theorem isForeign_of_temporary {s : Session} {v : Variable}
    (made : (perform Variable.temporary s).1 = .ok v) : v.IsForeign := by
  have result := congrArg Prod.fst (perform_create s (s.freshName "var_") 0)
  rw [show (perform (Variable.create (s.freshName "var_") 0) s).1 = .ok v from made] at result
  split at result
  · cases result
  · split at result
    · cases result
    · cases result
      exact Variable.isForeign_of_isWord (isWord_freshName s)

/-- Behind everything that was done in a new session the live variables have different names, and none of
them is a constant unless it is named like a number. So an operation on one of them leaves the scores of the
others and of all constants alone; a swap also sets the score of the variable that it swaps with.
Temporaries are never named like numbers. -/
theorem holders_stay_apart {α : Type} {x : EmitM α} {log : List Event} (logs : Logs x {} log) :
    let s := (perform x {}).2
    let live := liveVariables log
    (live.map Variable.name).Nodup ∧ (∀ v ∈ live, s.isRegistered v.name) ∧ s.constants.Nodup ∧
      (∀ t v, (perform Variable.temporary t).1 = .ok v → v.IsForeign) ∧
      ((∀ v ∈ live, v.IsForeign) →
        (live ++ s.constants.map constantNamed).Nodup ∧
        ∀ before v behind, live = before ++ v :: behind → ∀ op source, ∃ r cs ks,
          perform (v.operate op source) s = (r, (s.memoize ks).append cs) ∧
          ∀ (p : Site) (w : World) (u : Variable), (u ∈ before ++ behind ∨ ∃ k, u = constantNamed k) →
            (op = .swap → source ≠ .variable u) → (w.runAll p cs).score u = w.score u) := by
  intro s live
  have sound : s.Registers live := logs.registers .empty
  have names : (live.map Variable.name).Nodup :=
    List.Nodup.map (fun u v same => congrArg Variable.mk same) sound.nodup
  refine ⟨names, fun v mem => decide_eq_true (sound.inUse v mem), sound.constants,
    fun t v => isForeign_of_temporary, fun foreign => ⟨?_, fun before v behind split op source => ?_⟩⟩
  · have constants : (s.constants.map constantNamed).Nodup :=
      List.Nodup.map (fun _ _ => constantNamed_injective) sound.constants
    refine List.nodup_append.2 ⟨sound.nodup, constants, fun v inside u constant same => ?_⟩
    obtain ⟨k, -, rfl⟩ := List.mem_map.1 constant
    exact foreign v inside k same
  · obtain ⟨r, cs, ks, ran, applies⟩ := perform_operate v op source s
    refine ⟨r, cs, ks, ran, fun p w u other apart =>
      (World.sameBut_of_staysIn applies.staysIn p w).score u (Variable.notMem_sets ?_ apart)⟩
    rintro rfl
    rcases other with another | ⟨k, same⟩
    · exact (List.nodup_cons.1 (List.nodup_middle.1 (split ▸ sound.nodup))).1 another
    · exact foreign u (split ▸ List.mem_append_cons_self) k same

def borrowingClient : EmitM Unit := do
  enter
  let v ← Variable.create "v" 3
  v.operate .mul (.literal 64)
  let u ← Variable.temporary
  u.release
  let _ ← attempt (Variable.create "v" 4)
  let _ ← Variable.temporary

theorem holders_stay_apart_borrowing : ∃ log, Logs borrowingClient {} log ∧
    liveVariables log = [⟨"v"⟩, ⟨"var_"⟩] ∧
    (liveVariables log ++ (perform borrowingClient {}).2.constants.map constantNamed).Nodup ∧
    (perform borrowingClient {}).2.constants = [64] := by
  obtain ⟨log, logs, live⟩ : ∃ log, Logs borrowingClient {} log ∧
      liveVariables log = [⟨"v"⟩, ⟨"var_"⟩] :=
    ⟨_, .bind (.enter _) rfl (.bind (.create _ _ _) rfl
      (.bind (.bind (.constant _ _) rfl (.emitAll _ _)) rfl
      (.bind (.bind (.bind (.look _) rfl (.pure _ _)) rfl (.create _ _ _)) rfl
      (.bind (.bind (.freeName _ _) rfl (.emitAll _ _)) rfl
      (.bind (.attempt (.create _ _ _)) rfl
      (.map _ (.bind (.bind (.look _) rfl (.pure _ _)) rfl (.create _ _ _)))))))), by decide⟩
  have foreign : ∀ v ∈ liveVariables log, v.IsForeign := by
    rw [live]
    have words : ∀ v ∈ [⟨"v"⟩, (⟨"var_"⟩ : Variable)], v.isWord := by decide
    exact fun v mem => Variable.isForeign_of_isWord (words v mem)
  exact ⟨log, logs, live, ((holders_stay_apart logs).2.2.2.2 foreign).1, by decide⟩

def clashingClient : EmitM Unit := do
  enter
  let v ← Variable.create "v" 3
  v.operate .mul (.literal 64)
  let _ ← Variable.create "64" 5

/-- A variable named like a number in use is created without an error, and its first value overwrites the
constant. -/
theorem holders_clash : ∃ log, Logs clashingClient {} log ∧
    let s := (perform clashingClient {}).2
    (perform clashingClient {}).1 = .ok () ∧ ⟨"64"⟩ ∈ liveVariables log ∧ 64 ∈ s.constants ∧
      ¬ (liveVariables log ++ s.constants.map constantNamed).Nodup ∧
      ∀ (p : Site) (w : World), (w.runAll p s.init).score (constantNamed 64) = 64 ∧
        ((w.runAll p s.init).runAll p s.scopes.flatten).score (constantNamed 64) = 5 := by
  have init : (perform clashingClient {}).2.init = [.addObjective, setNumber 64] := rfl
  have scope : (perform clashingClient {}).2.scopes.flatten = [.setScore ⟨"v"⟩ 3,
      .operateScore ⟨"v"⟩ .mul (constantNamed 64), .setScore (constantNamed 64) 5] := rfl
  refine ⟨_, .bind (.enter _) rfl (.bind (.create _ _ _) rfl
    (.bind (.bind (.constant _ _) rfl (.emitAll _ _)) rfl (.map _ (.create _ _ _)))), rfl, by decide,
    by decide, by decide, fun p w => ?_⟩
  rw [init, scope]
  exact ⟨World.score_setScore_self .., World.score_setScore_self ..⟩

end BlockComputer
