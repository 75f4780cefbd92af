import BlockComputer.Proofs.Emission.Naming
import Mathlib.Algebra.GroupWithZero.Nat
import Mathlib.Data.List.Nodup
import Mathlib.Data.List.Perm.Subperm
import Std.Data.HashSet.Lemmas
import Std.Data.String.ToNat

/-!
How a session grows.

Outside the open scopes a step creates variables, materializes constants, takes tags and puts commands
into the initialization. Steps that cannot fail are told by the session that they leave, so the
initialization of a composed step is read off its parts. A fresh name is never in use, because there are
more numbers to try than names.
-/

namespace BlockComputer

variable {α : Type}

namespace Session

def declare (s : Session) (vars : List (String × Int32)) : Session :=
  (s.register (vars.map Prod.fst)).extendInit (vars.map setNamed)

def tagged (s : Session) : Session :=
  { s with nextTag := s.nextTag + 1 }

def nextMarker (s : Session) : Entity :=
  ⟨Entity.marker, s!"e{s.nextTag}"⟩

variable (s : Session) (vars : List (String × Int32)) (cs : List Command) (ks : List Int32)

@[simp] theorem names_declare : (s.declare vars).names = s.names ++ vars.map Prod.fst := rfl

@[simp] theorem init_declare : (s.declare vars).init = s.init ++ vars.map setNamed := rfl

@[simp] theorem constants_declare : (s.declare vars).constants = s.constants := rfl

@[simp] theorem nextTag_declare : (s.declare vars).nextTag = s.nextTag := rfl

@[simp] theorem names_extendInit : (s.extendInit cs).names = s.names := rfl

@[simp] theorem init_extendInit : (s.extendInit cs).init = s.init ++ cs := rfl

@[simp] theorem constants_extendInit : (s.extendInit cs).constants = s.constants := rfl

@[simp] theorem nextTag_extendInit : (s.extendInit cs).nextTag = s.nextTag := rfl

@[simp] theorem names_tagged : s.tagged.names = s.names := rfl

@[simp] theorem init_tagged : s.tagged.init = s.init := rfl

@[simp] theorem constants_tagged : s.tagged.constants = s.constants := rfl

@[simp] theorem nextTag_tagged : s.tagged.nextTag = s.nextTag + 1 := rfl

@[simp] theorem names_memo (k : Int32) : (s.memo k).names = s.names := by
  unfold memo
  split <;> rfl

@[simp] theorem nextTag_memo (k : Int32) : (s.memo k).nextTag = s.nextTag := by
  unfold memo
  split <;> rfl

theorem mem_constants_memo {k l : Int32} :
    l ∈ (s.memo k).constants ↔ l ∈ s.constants ∨ l = k := by
  unfold memo
  split
  · next known => exact ⟨.inl, fun mem => mem.elim id fun same => same ▸ known⟩
  · rw [List.mem_append, List.mem_singleton]

@[simp] theorem names_memoize : (s.memoize ks).names = s.names := by
  induction ks generalizing s with
  | nil => rfl
  | cons k ks ih => rw [memoize_cons, ih, names_memo]

@[simp] theorem nextTag_memoize : (s.memoize ks).nextTag = s.nextTag := by
  induction ks generalizing s with
  | nil => rfl
  | cons k ks ih => rw [memoize_cons, ih, nextTag_memo]

theorem mem_constants_memoize {l : Int32} :
    l ∈ (s.memoize ks).constants ↔ l ∈ s.constants ∨ l ∈ ks := by
  induction ks generalizing s with
  | nil => simp
  | cons k ks ih => rw [memoize_cons, ih, mem_constants_memo, List.mem_cons, or_assoc]

theorem length_init_memoize_le : (s.memoize ks).init.length ≤ s.init.length + ks.length := by
  induction ks generalizing s with
  | nil => exact Nat.le_refl _
  | cons k ks ih =>
    have first : (s.memo k).init.length ≤ s.init.length + 1 := by
      unfold memo
      split
      · exact Nat.le_succ _
      · simp
    rw [memoize_cons, List.length_cons]
    have others := ih (s.memo k)
    omega

theorem Free.congr {s t : Session} {names : List String} (h : s.Free names) (same : t.names = s.names) :
    t.Free names := by
  rwa [Free, same]

theorem freshName_notMem (name : String) : s.freshName name ∉ s.names := by
  unfold freshName isRegistered
  split
  · dsimp only
    let number (n : Nat) : String := s!"{name}{n}"
    have injective : Function.Injective number := fun m n same =>
      Nat.repr_inj.1 ((String.append_right_inj name).1 same)
    generalize found : List.find? _ _ = trial
    cases trial with
    | some trial =>
      have free := List.find?_some found
      simpa using free
    | none =>
      have taken : (List.range (s.names.length + 1)).map number ⊆ s.names := by
        intro trial mem
        have used := List.find?_eq_none.1 found trial mem
        simpa using used
      have fits := (List.Nodup.map injective List.nodup_range).subperm taken |>.length_le
      rw [List.length_map, List.length_range] at fits
      exact absurd fits (Nat.not_succ_le_self _)
  · next free => simpa using free

end Session

/-- Variables that a step creates, and then numbers that it reads. -/
structure Addition where
  vars : List (String × Int32)
  numbers : List Int32

namespace Addition

def ofVars (vars : List (String × Int32)) : Addition :=
  ⟨vars, []⟩

def ofNumbers (ks : List Int32) : Addition :=
  ⟨[], ks⟩

def size (a : Addition) : Nat :=
  a.vars.length + a.numbers.length

end Addition

def declaredNames (adds : List Addition) : List String :=
  adds.flatMap fun a => a.vars.map Prod.fst

@[simp] theorem declaredNames_append (adds others : List Addition) :
    declaredNames (adds ++ others) = declaredNames adds ++ declaredNames others :=
  List.flatMap_append

namespace Session

def grow (s : Session) (adds : List Addition) : Session :=
  adds.foldl (fun s a => (s.declare a.vars).memoize a.numbers) s

def precede (s : Session) (cs : List Command) : Session :=
  { s with init := cs ++ s.init }

def added (s : Session) (adds : List Addition) : List Command :=
  (grow { s with init := [] } adds).init

variable (s : Session) (adds others : List Addition) (cs : List Command)

@[simp] theorem grow_nil : s.grow [] = s := rfl

@[simp] theorem grow_cons (a : Addition) :
    s.grow (a :: adds) = ((s.declare a.vars).memoize a.numbers).grow adds := rfl

theorem grow_append : s.grow (adds ++ others) = (s.grow adds).grow others :=
  List.foldl_append

@[simp] theorem names_grow : (s.grow adds).names = s.names ++ declaredNames adds := by
  induction adds generalizing s with
  | nil => exact (List.append_nil _).symm
  | cons a adds ih =>
    rw [grow_cons, ih, names_memoize, names_declare, List.append_assoc]
    rfl

theorem memoize_precede (ks : List Int32) : (s.precede cs).memoize ks = (s.memoize ks).precede cs := by
  induction ks generalizing s with
  | nil => rfl
  | cons k ks ih =>
    have first : (s.precede cs).memo k = (s.memo k).precede cs := by
      by_cases known : k ∈ s.constants <;> simp [memo, precede, known]
    rw [memoize_cons, memoize_cons, first, ih]

theorem grow_precede : (s.precede cs).grow adds = (s.grow adds).precede cs := by
  induction adds generalizing s with
  | nil => rfl
  | cons a adds ih =>
    have declared : (s.precede cs).declare a.vars = (s.declare a.vars).precede cs := by
      simp [precede, declare, register, extendInit]
    rw [grow_cons, grow_cons, declared, memoize_precede, ih]

theorem init_grow : (s.grow adds).init = s.init ++ s.added adds := by
  have same : precede { s with init := [] } s.init = s := by simp [precede]
  have grown := grow_precede { s with init := [] } adds s.init
  rw [same] at grown
  rw [grown]
  rfl

theorem length_init_grow_le :
    (s.grow adds).init.length ≤ s.init.length + (adds.map Addition.size).sum := by
  induction adds generalizing s with
  | nil => exact Nat.le_refl _
  | cons a adds ih =>
    have first := (s.declare a.vars).length_init_memoize_le a.numbers
    have others := ih ((s.declare a.vars).memoize a.numbers)
    simp only [init_declare, List.length_append, List.length_map] at first
    simp only [grow_cons, List.map_cons, List.sum_cons, Addition.size]
    omega

theorem mem_constants_grow {k : Int32} :
    k ∈ (s.grow adds).constants ↔ k ∈ s.constants ∨ k ∈ adds.flatMap Addition.numbers := by
  induction adds generalizing s with
  | nil => simp
  | cons a adds ih =>
    rw [grow_cons, ih, mem_constants_memoize, constants_declare, List.flatMap_cons, List.mem_append,
      or_assoc]

theorem mem_init_memoize {ks : List Int32} {c : Command} :
    c ∈ (s.memoize ks).init ↔
      c ∈ s.init ∨ ∃ k ∈ ks, k ∉ s.constants ∧ c = .setScore (constantNamed k) k := by
  induction ks generalizing s with
  | nil => simp
  | cons k ks ih =>
    have first : c ∈ (s.memo k).init ↔
        c ∈ s.init ∨ k ∉ s.constants ∧ c = .setScore (constantNamed k) k := by
      unfold memo
      split
      · next known => simp [known]
      · next new => simp [new]
    rw [memoize_cons, ih, first, List.exists_mem_cons_iff]
    constructor
    · rintro ((old | here) | ⟨l, mem, new, rfl⟩)
      · exact .inl old
      · exact .inr (.inl here)
      · exact .inr (.inr ⟨l, mem, fun known => new ((s.mem_constants_memo).2 (.inl known)), rfl⟩)
    · rintro (old | here | ⟨l, mem, new, rfl⟩)
      · exact .inl (.inl old)
      · exact .inl (.inr here)
      · by_cases same : l = k
        · exact .inl (.inr ⟨same ▸ new, same ▸ rfl⟩)
        · refine .inr ⟨l, mem, fun known => ?_, rfl⟩
          exact ((s.mem_constants_memo).1 known).elim new same

/-- What is added sets the new variables, and the numbers that had no score yet. -/
theorem mem_added {c : Command} : c ∈ s.added adds ↔ (∃ v ∈ adds.flatMap Addition.vars, c = setNamed v) ∨
    ∃ k ∈ adds.flatMap Addition.numbers, k ∉ s.constants ∧ c = .setScore (constantNamed k) k := by
  have grown (t : Session) : c ∈ (t.grow adds).init ↔
      c ∈ t.init ∨ (∃ v ∈ adds.flatMap Addition.vars, c = setNamed v) ∨
        ∃ k ∈ adds.flatMap Addition.numbers, k ∉ t.constants ∧ c = .setScore (constantNamed k) k := by
    induction adds generalizing t with
    | nil => simp
    | cons a adds ih =>
      rw [grow_cons, ih, mem_init_memoize]
      simp only [init_declare, constants_declare, List.mem_append, List.mem_map, List.flatMap_cons,
        mem_constants_memoize]
      grind
  rw [added, grown]
  simp

theorem Free.grow {s : Session} {adds others : List Addition}
    (h : s.Free (declaredNames (adds ++ others))) : (s.grow adds).Free (declaredNames others) := by
  rw [declaredNames_append] at h
  exact h.right.congr (by simp [register])

end Session

/-- Where the names are free the step returns `a` and adds to the session, and does nothing else. -/
def Builds (x : EmitM α) (a : α) (adds : List Addition) : Prop :=
  ∀ s : Session, s.Free (declaredNames adds) → perform x s = (.ok a, s.grow adds)

theorem perform_newMarker (s : Session) : perform newMarker s = (.ok s.nextMarker, s.tagged) := rfl

theorem perform_inInit {x : EmitM α} {s s' : Session} {a : α} {cs : List Command}
    (body : perform x { s with scopes := [] :: s.scopes } = (.ok a, s'))
    (scopes : s'.scopes = cs :: s.scopes) :
    perform (inInit x) s = (.ok a, ({ s' with scopes := s.scopes } : Session).extendInit cs) := by
  simp only [inInit, perform_bind, perform_inScope s body scopes, perform_modify, perform_pure]
  rfl

namespace Emits

variable {x : EmitM α} {a : α} {cs : List Command} {ks : List Int32}

theorem perform_inInit (h : Emits x a cs ks) (s : Session) :
    perform (inInit x) s = (.ok a, (s.memoize ks).extendInit cs) := by
  have body := h { s with scopes := [] :: s.scopes } (by simp)
  rw [Session.memoize_withScopes] at body
  rw [BlockComputer.perform_inInit body (show _ = cs :: s.scopes by simp [Session.append])]
  simp [Session.append, Session.extendInit]

theorem perform_captureChain {x : EmitM Unit} (h : Emits x () cs ks) (label : String) (onlyChain : Bool)
    (s : Session) : perform (captureChain label onlyChain x) s =
      (.ok { label, commands := cs, onlyChain }, s.memoize ks) := by
  simp only [captureChain, perform_bind, h.perform_capture, perform_pure]

end Emits

namespace Builds

variable {β : Type} {x : EmitM α} {a : α} {b : β} {adds others : List Addition}

theorem pure (a : α) : Builds (Pure.pure a) a [] :=
  fun _ _ => rfl

theorem bind {f : α → EmitM β} (first : Builds x a adds) (second : Builds (f a) b others) :
    Builds (x >>= f) b (adds ++ others) := by
  intro s free
  have later := free.grow
  rw [declaredNames_append] at free
  rw [perform_bind, first s free.left, Session.grow_append]
  exact second _ later

theorem lift {e : Except Failure α} (made : e = .ok a) : Builds (liftM e : EmitM α) a [] := by
  subst made
  exact pure a

theorem of_declaresInit {vars : List (String × Int32)} (h : DeclaresInit x a vars) :
    Builds x a [.ofVars vars] :=
  fun s free => h.succeeds s (by simpa [declaredNames, Addition.ofVars] using free)

theorem captureChain {x : EmitM Unit} {cs : List Command} {ks : List Int32} (h : Emits x () cs ks)
    (label : String) (onlyChain : Bool) :
    Builds (captureChain label onlyChain x) { label, commands := cs, onlyChain } [.ofNumbers ks] := by
  intro s _
  rw [h.perform_captureChain]
  simp [Addition.ofNumbers, Session.declare, Session.register, Session.extendInit]

def rowChain (label : String) (onlyChain : Bool) (entry : String × List Command × List Int32) : Chain :=
  { label := rowLabel label entry.1, commands := entry.2.1, onlyChain }

theorem addRows {rows : List (String × EmitM Unit)} {entries : List (String × List Command × List Int32)}
    (h : List.Forall₂ (fun row entry => row.1 = entry.1 ∧ Emits row.2 () entry.2.1 entry.2.2) rows entries)
    (g : ChainGroup) :
    Builds (g.addRows rows)
      { g with chains := g.chains ++ entries.map (rowChain g.label g.onlyChain) }
      (entries.map fun entry => .ofNumbers entry.2.2) := by
  induction h generalizing g with
  | nil =>
    rw [List.map_nil, List.map_nil, List.append_nil]
    exact pure g
  | @cons row entry rows entries first _ ih =>
    obtain ⟨name, emits⟩ := first
    have captured := (captureChain emits (rowLabel g.label row.1) g.onlyChain).bind
      (f := fun chain => Pure.pure (g.add chain)) (pure _)
    have added := captured.bind (f := fun g => g.addRows rows) (ih _)
    rw [name] at added
    simpa [ChainGroup.addRows, ChainGroup.addCaptured, ChainGroup.add, rowChain, rowLabel, name]
      using added

end Builds

end BlockComputer
