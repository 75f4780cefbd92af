import BlockComputer.Proofs.Emission.Arithmetic
import BlockComputer.Proofs.Emission.Failing

/-!
Steps that create variables.

Such a step takes names into use and sets the scores. Where the names are free it succeeds; whenever it
succeeds, what it returns is known, because a variable is its name; and else it is a name that fails.
-/

namespace BlockComputer

variable {α β : Type}

namespace Session

def register (s : Session) (names : List String) : Session :=
  { s with names := s.names ++ names }

def extendInit (s : Session) (cs : List Command) : Session :=
  { s with init := s.init ++ cs }

def Free (s : Session) (names : List String) : Prop :=
  names.Nodup ∧ ∀ name ∈ names, name ∉ s.names

theorem register_nil (s : Session) : s.register [] = s := by
  simp [register]

theorem register_append (s : Session) (names others : List String) :
    s.register (names ++ others) = (s.register names).register others := by
  simp [register]

theorem append_register (s : Session) (cs : List Command) (names : List String) :
    (s.append cs).register names = (s.register names).append cs := by
  cases h : s.scopes <;> simp [append, register, h]

theorem names_append (s : Session) (cs : List Command) : (s.append cs).names = s.names := by
  cases h : s.scopes <;> simp [append, h]

theorem constants_append (s : Session) (cs : List Command) : (s.append cs).constants = s.constants := by
  cases h : s.scopes <;> simp [append, h]

theorem init_append (s : Session) (cs : List Command) : (s.append cs).init = s.init := by
  cases h : s.scopes <;> simp [append, h]

theorem Free.left {s : Session} {names others : List String} (h : s.Free (names ++ others)) :
    s.Free names :=
  ⟨(List.nodup_append.1 h.1).1, fun name mem => h.2 name (List.mem_append_left _ mem)⟩

theorem Free.right {s : Session} {names others : List String} (h : s.Free (names ++ others)) :
    (s.register names).Free others := by
  obtain ⟨-, nodup, apart⟩ := List.nodup_append.1 h.1
  refine ⟨nodup, fun name mem used => ?_⟩
  rcases List.mem_append.1 used with old | new
  · exact h.2 name (List.mem_append_right _ mem) old
  · exact apart name new name mem rfl

end Session

def setNamed (v : String × Int32) : Command :=
  .setScore ⟨v.1⟩ v.2

def Failure.IsNaming (e : Failure) : Prop :=
  e = .error .noActiveScope ∨ ∃ name, e = .error (.duplicateName name)

theorem Failure.IsNaming.not_isOverflow {e : Failure} (h : e.IsNaming) : ¬ e.IsOverflow := by
  rintro ⟨_, _, _, rfl⟩
  rcases h with same | ⟨_, same⟩ <;> cases same

structure Declares (x : EmitM α) (a : α) (vars : List (String × Int32)) : Prop where
  returns : Ensures x (· = a)
  fails : FailsWith x Failure.IsNaming
  succeeds : ∀ s : Session, s.scopes ≠ [] → s.Free (vars.map Prod.fst) →
    perform x s = (.ok a, (s.register (vars.map Prod.fst)).append (vars.map setNamed))

namespace Declares

variable {x : EmitM α} {a : α} {b : β} {us vs : List (String × Int32)}

theorem pure (a : α) : Declares (pure a) a [] where
  returns := .pure rfl
  fails := .pure a
  succeeds s _ _ := by simp [Session.register_nil, Session.append_nil]

theorem bind {f : α → EmitM β} (first : Declares x a us) (second : Declares (f a) b vs) :
    Declares (x >>= f) b (us ++ vs) where
  returns := first.returns.bind fun _ same => same ▸ second.returns
  fails := first.fails.bind_of_ensures first.returns fun _ same => same ▸ second.fails
  succeeds s open_ free := by
    rw [List.map_append] at free
    have still : ((s.register (us.map Prod.fst)).append (us.map setNamed)).scopes ≠ [] :=
      Session.scopes_append_ne_nil _ _ open_
    have free' : ((s.register (us.map Prod.fst)).append (us.map setNamed)).Free
        (vs.map Prod.fst) := by
      rw [Session.Free, Session.names_append]
      exact free.right
    rw [perform_bind, first.succeeds s open_ free.left]
    simp only
    rw [second.succeeds _ still free', Session.append_register, Session.append_append, List.map_append,
      List.map_append, Session.register_append]

theorem create (name : String) (value : Int32) :
    Declares (Variable.create name value) ⟨name⟩ [(name, value)] where
  returns := .bind (.any _) fun _ _ => .bind (.any _) fun _ _ => .pure rfl
  fails := .bind (.registerName (.inr ⟨name, rfl⟩)) fun _ =>
    .bind (.emitAll (.inl rfl) _) fun _ => .pure _
  succeeds s open_ free := by
    have unused : s.isRegistered name = false := by
      simpa [Session.isRegistered] using free.2 name (by simp)
    have set := Emits.setTo ⟨name⟩ value (s.register [name]) open_
    have registered : perform (registerName name) s = (.ok (), s.register [name]) := by
      simp only [registerName, perform_bind, perform_get, unused, Bool.false_eq_true, if_false,
        perform_set, Session.register]
    simp only [Variable.create, perform_bind, registered, set, perform_pure]
    rfl

theorem vector (name : String) (initial : Position) :
    Declares (Vector3.create name initial)
      ⟨name, ⟨s!"{name}_x"⟩, ⟨s!"{name}_y"⟩, ⟨s!"{name}_z"⟩⟩
      [(s!"{name}_x", initial.x.value), (s!"{name}_y", initial.y.value),
        (s!"{name}_z", initial.z.value)] :=
  (create _ _).bind <| (create _ _).bind <| (create _ _).bind (pure _)

theorem mapM (names : List String) (value : Int32) :
    Declares (names.mapM (Variable.create · value)) (names.map Variable.mk)
      (names.map fun name => (name, value)) := by
  induction names with
  | nil => exact pure _
  | cons name names ih =>
    rw [List.mapM_cons]
    have step := (create name value).bind (f := fun v => do
      let others ← names.mapM (Variable.create · value)
      Pure.pure (v :: others)) (ih.bind (pure _))
    simpa using step

end Declares

structure DeclaresInit (x : EmitM α) (a : α) (vars : List (String × Int32)) : Prop where
  returns : Ensures x (· = a)
  fails : FailsWith x Failure.IsNaming
  succeeds : ∀ s : Session, s.Free (vars.map Prod.fst) →
    perform x s = (.ok a, (s.register (vars.map Prod.fst)).extendInit (vars.map setNamed))

theorem Declares.inInit {x : EmitM α} {a : α} {vs : List (String × Int32)} (h : Declares x a vs) :
    DeclaresInit (inInit x) a vs where
  returns := h.returns.inInit
  fails := h.fails.inInit (.inl rfl)
  succeeds s free := by
    have body := h.succeeds { s with scopes := [] :: s.scopes } (by simp) free
    have inner := perform_inScope s body (show _ = vs.map setNamed :: s.scopes by
      simp [Session.append, Session.register])
    simp only [BlockComputer.inInit, perform_bind, inner, perform_modify, perform_pure]
    simp [Session.append, Session.register, Session.extendInit]

end BlockComputer
