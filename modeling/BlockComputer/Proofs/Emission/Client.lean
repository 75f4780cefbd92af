import BlockComputer.Proofs.Emission.Growth
import BlockComputer.Proofs.Emission.Wording
import BlockComputer.Proofs.World.Touching

/-!
Constants are set once, and before they are read.

A client of a session opens and closes scopes, runs bodies in them, catches their failures and emits
commands. It only reads the constants that the session has handed out, and uses no other score that is
named like a number. Whatever such a client does, the table of constants and the initialization stay in
step: constants bypass the scopes, so a body that fails may lose the commands that read a constant, but
never the command that sets it.
-/

namespace BlockComputer

def Qualifier.reads : Qualifier → List Variable
  | .ifHolds c | .unlessHolds c => c.reads
  | _ => []

def Command.reads : Command → List Variable
  | .addScore v _ | .removeScore v _ | .getScore v | .tellScore v => [v]
  | .operateScore v _ u => [v, u]
  | .execute qs c => qs.flatMap Qualifier.reads ++ c.reads
  | _ => []

/-- The qualifier changes no constant, and it reads those of these numbers only. -/
structure Qualifier.Respects (ks : List Int32) (q : Qualifier) : Prop where
  foreign : ∀ v ∈ q.touches, v.IsForeign
  known : ∀ k, constantNamed k ∈ q.reads → k ∈ ks

/-- The command changes no constant, and it reads those of these numbers only. -/
structure Command.Respects (ks : List Int32) (c : Command) : Prop where
  foreign : ∀ v ∈ c.touches, v.IsForeign
  known : ∀ k, constantNamed k ∈ c.reads → k ∈ ks
  text : ∀ k, c ≠ .raw (setNumber k).render

theorem Qualifier.Respects.mono {q : Qualifier} {ks ls : List Int32} (h : q.Respects ks)
    (subset : ks ⊆ ls) : q.Respects ls :=
  ⟨h.foreign, fun k mem => subset (h.known k mem)⟩

theorem Qualifier.Respects.guard {b : Branch} {ks : List Int32}
    (foreign : ∀ v ∈ b.condition.reads, v.IsForeign) : b.guard.Respects ks := by
  have known (k : Int32) (mem : constantNamed k ∈ b.condition.reads) : k ∈ ks := absurd rfl (foreign _ mem k)
  unfold Branch.guard
  split
  · exact ⟨List.forall_mem_nil _, known⟩
  · exact ⟨List.forall_mem_nil _, known⟩

namespace Command.Respects

variable {c : Command} {ks ls : List Int32}

theorem mono (h : c.Respects ks) (subset : ks ⊆ ls) : c.Respects ls :=
  ⟨h.foreign, fun k mem => subset (h.known k mem), h.text⟩

theorem setScore {v : Variable} (foreign : v.IsForeign) (n : Int32) : (Command.setScore v n).Respects ks where
  foreign := List.forall_mem_singleton.2 foreign
  known _ mem := nomatch mem
  text _ same := nomatch same

theorem addCommand {v : Variable} (foreign : v.IsForeign) (amount : Int) :
    (v.addCommand amount).Respects ks := by
  have own (k : Int32) (mem : constantNamed k ∈ [v]) : k ∈ ks :=
    absurd (List.mem_singleton.1 mem).symm (foreign k)
  unfold Variable.addCommand
  split
  · exact ⟨List.forall_mem_singleton.2 foreign, own, fun _ same => nomatch same⟩
  · exact ⟨List.forall_mem_singleton.2 foreign, own, fun _ same => nomatch same⟩

theorem operateConstant {v : Variable} (foreign : v.IsForeign) {op : ScoreOp} (ne : op ≠ .swap) {k : Int32}
    (known : k ∈ ks) : (Command.operateScore v op (constantNamed k)).Respects ks where
  foreign u mem := by
    replace mem : u ∈ if op = .swap then [v, constantNamed k] else [v] := mem
    rw [if_neg ne, List.mem_singleton] at mem
    exact mem ▸ foreign
  known l mem := by
    rcases List.mem_cons.1 mem with same | same
    · exact absurd same.symm (foreign l)
    · exact constantNamed_injective (List.mem_singleton.1 same) ▸ known
  text _ same := nomatch same

theorem guarded (h : c.Respects ks) {qs : List Qualifier} (respect : ∀ q ∈ qs, q.Respects ks) :
    (c.guarded qs).Respects ks := by
  unfold Command.guarded
  split
  · exact h
  · refine ⟨fun v mem => ?_, fun k mem => ?_, fun k same => nomatch same⟩
    · rcases List.mem_append.1 mem with inGuards | inCommand
      · obtain ⟨q, inside, mem⟩ := List.mem_flatMap.1 inGuards
        exact (respect q inside).foreign v mem
      · exact h.foreign v inCommand
    · rcases List.mem_append.1 mem with inGuards | inCommand
      · obtain ⟨q, inside, mem⟩ := List.mem_flatMap.1 inGuards
        exact (respect q inside).known k mem
      · exact h.known k inCommand

/-- No command of a client reads like one that sets a constant. -/
theorem render_ne (h : c.Respects ks) (k : Int32) : c.render ≠ (setNumber k).render := by
  intro same
  rcases eq_setScore_of_render same with rfl | ⟨text, rfl⟩
  · exact h.foreign _ (List.mem_singleton_self _) k rfl
  · exact h.text k (congrArg Command.raw same)

end Command.Respects

def Command.sets (k : Int32) (c : Command) : Bool :=
  c.render == (setNumber k).render

theorem setNumber_sets_iff {k l : Int32} : (setNumber l).sets k ↔ l = k := by
  rw [Command.sets, beq_iff_eq]
  exact ⟨fun same => (render_setScore_inj same).2, fun same => same ▸ rfl⟩

/-- The steps that a client takes, from a session on. -/
inductive Client : {α : Type} → EmitM α → Session → Prop
  | pure {α : Type} (a : α) (s : Session) : Client (pure a) s
  | fail {α : Type} (e : Failure) (s : Session) : Client (throw e : EmitM α) s
  | bind {α β : Type} {x : EmitM α} {f : α → EmitM β} {s : Session} (first : Client x s)
      (second : ∀ a t, perform x s = (.ok a, t) → Client (f a) t) : Client (x >>= f) s
  | attempt {α : Type} {x : EmitM α} {s : Session} (step : Client x s) : Client (attempt x) s
  | look (s : Session) : Client get s
  | registerName (name : String) (s : Session) : Client (registerName name) s
  | freeName (name : String) (s : Session) : Client (freeName name) s
  | newTag (s : Session) : Client newTag s
  | enter (s : Session) : Client enter s
  | leave (s : Session) : Client leave s
  | emitAll {cs : List Command} {s : Session} (respect : ∀ c ∈ cs, c.Respects s.constants) :
      Client (emitAll cs) s
  | emitInit {c : Command} {s : Session} (respects : c.Respects s.constants) : Client (emitInit c) s
  | constant (k : Int32) (s : Session) : Client (constant k) s
  | operate {v : Variable} (foreign : v.IsForeign) (op : ScoreOp) (k : Int32) (s : Session) :
      Client (v.operate op (.literal k)) s
  | inScope {α : Type} {x : EmitM α} {s : Session} (body : Client x { s with scopes := [] :: s.scopes }) :
      Client (inScope x) s
  | inInit {α : Type} {x : EmitM α} {s : Session} (body : Client x { s with scopes := [] :: s.scopes }) :
      Client (inInit x) s
  | emitBlockUnder {x : EmitM Unit} {qs : List Qualifier} {s : Session}
      (respect : ∀ q ∈ qs, q.Respects s.constants) (body : Client x { s with scopes := [] :: s.scopes }) :
      Client (emitBlockUnder qs x) s

theorem nodup_append_singleton {α : Type} {xs : List α} {x : α} (nodup : xs.Nodup) (new : x ∉ xs) :
    (xs ++ [x]).Nodup :=
  List.concat_eq_append ▸ nodup.concat new

/-- The table of constants and the initialization are in step, and every command in sight finds the
constants that it reads. -/
structure Session.Materializes (s : Session) : Prop where
  nodup : s.constants.Nodup
  set : ∀ k ∈ s.constants, setNumber k ∈ s.init
  once : ∀ k, s.init.countP (Command.sets k) = if k ∈ s.constants then 1 else 0
  ordered : ∀ (i : Nat) (c : Command), s.init[i]? = some c → ∀ k, constantNamed k ∈ c.reads →
    ∃ j < i, s.init[j]? = some (setNumber k)
  respect : ∀ scope ∈ s.scopes, ∀ c ∈ scope, c.Respects s.constants

namespace Session.Materializes

variable {s t : Session} {cs : List Command}

theorem empty : ({} : Session).Materializes where
  nodup := List.nodup_nil
  set _ mem := nomatch mem
  once k := by
    have other : (Command.addObjective).sets k = false := by
      rw [Command.sets, beq_eq_false_iff_ne]
      intro same
      rcases eq_setScore_of_render same with eq | ⟨_, eq⟩ <;> cases eq
    simp [other]
  ordered i c here k mem := by
    obtain ⟨-, rfl⟩ : i = 0 ∧ .addObjective = c := by simpa [List.getElem?_singleton] using here
    cases mem
  respect _ mem := nomatch mem

theorem congr (h : s.Materializes) (constants : t.constants = s.constants) (init : t.init = s.init)
    (respect : ∀ scope ∈ t.scopes, ∀ c ∈ scope, c.Respects s.constants) : t.Materializes where
  nodup := constants ▸ h.nodup
  set := by rw [init, constants]; exact h.set
  once := by rw [init, constants]; exact h.once
  ordered := init ▸ h.ordered
  respect := constants ▸ respect

theorem reopen (h : s.Materializes) {scopes : List (List Command)} (subset : scopes ⊆ s.scopes) :
    ({ s with scopes := scopes } : Session).Materializes :=
  h.congr rfl rfl fun scope mem => h.respect scope (subset mem)

theorem entered (h : s.Materializes) : ({ s with scopes := [] :: s.scopes } : Session).Materializes :=
  h.congr rfl rfl (List.forall_mem_cons.2 ⟨List.forall_mem_nil _, h.respect⟩)

theorem ordered_append (h : s.Materializes)
    (known : ∀ c ∈ cs, ∀ k, constantNamed k ∈ Command.reads c → k ∈ s.constants) (i : Nat) (c : Command)
    (here : (s.init ++ cs)[i]? = some c) (k : Int32) (mem : constantNamed k ∈ c.reads) :
    ∃ j < i, (s.init ++ cs)[j]? = some (setNumber k) := by
  rcases Nat.lt_or_ge i s.init.length with old | new
  · rw [List.getElem?_append_left old] at here
    obtain ⟨j, less, set⟩ := h.ordered i c here k mem
    exact ⟨j, less, (List.getElem?_append_left (less.trans old)).trans set⟩
  · rw [List.getElem?_append_right new] at here
    obtain ⟨j, set⟩ := List.mem_iff_getElem?.1 (h.set k (known c (List.mem_of_getElem? here) k mem))
    have less := (List.getElem?_eq_some_iff.1 set).1
    exact ⟨j, less.trans_le new, (List.getElem?_append_left less).trans set⟩

theorem extendInit (h : s.Materializes) (respect : ∀ c ∈ cs, c.Respects s.constants) :
    (s.extendInit cs).Materializes where
  nodup := h.nodup
  set k known := List.mem_append_left _ (h.set k known)
  once k := by
    have none_ : cs.countP (Command.sets k) = 0 := by
      rw [List.countP_eq_zero]
      exact fun c mem sets => (respect c mem).render_ne k (beq_iff_eq.1 sets)
    rw [Session.init_extendInit, List.countP_append, none_, h.once]
    rfl
  ordered := h.ordered_append fun c mem => (respect c mem).known
  respect := h.respect

theorem memo (h : s.Materializes) (k : Int32) : (s.memo k).Materializes := by
  by_cases known : k ∈ s.constants
  · rwa [Session.memo, if_pos known]
  · rw [Session.memo, if_neg known]
    refine ⟨?_, fun l mem => ?_, fun l => ?_, h.ordered_append fun c mem l inside => ?_,
      fun scope inside c mem => (h.respect scope inside c mem).mono (List.subset_append_left _ _)⟩
    · exact nodup_append_singleton h.nodup known
    · rcases List.mem_append.1 mem with old | new
      · exact List.mem_append_left _ (h.set l old)
      · rw [List.mem_singleton.1 new]
        exact List.mem_append_right _ (List.mem_singleton_self _)
    · rw [List.countP_append, h.once, List.countP_singleton]
      change _ + (if (setNumber k).sets l = true then 1 else 0) = _
      by_cases same : k = l
      · subst same
        simp [setNumber_sets_iff, known]
      · simp [setNumber_sets_iff, same, Ne.symm same]
    · rw [List.mem_singleton.1 mem] at inside
      cases inside

theorem memoize (h : s.Materializes) (ks : List Int32) : (s.memoize ks).Materializes := by
  induction ks generalizing s with
  | nil => exact h
  | cons k ks ih => exact ih (h.memo k)

theorem append (h : s.Materializes) (respect : ∀ c ∈ cs, c.Respects s.constants) :
    (s.append cs).Materializes := by
  unfold Session.append
  split
  · exact h
  · next top others scopes =>
    have open_ := h.respect
    rw [scopes, List.forall_mem_cons] at open_
    refine h.congr rfl rfl (List.forall_mem_cons.2 ⟨fun c mem => ?_, open_.2⟩)
    exact (List.mem_append.1 mem).elim (open_.1 c) (respect c)

end Session.Materializes

section perform

variable {α : Type}

theorem perform_attempt_snd (x : EmitM α) (s : Session) :
    (perform (attempt x) s).2 = (perform x s).2 := by
  rw [perform_attempt]
  rcases perform x s with ⟨r, t⟩
  cases r with
  | ok a => rfl
  | error e => cases e <;> rfl

theorem perform_registerName (name : String) (s : Session) : perform (registerName name) s =
    if s.isRegistered name then (.error (.error (.duplicateName name)), s)
    else (.ok (), s.register [name]) := by
  by_cases used : s.isRegistered name
  · simp [registerName, perform_bind, used]
  · simp [registerName, perform_bind, used, Session.register]

theorem perform_freeName (name : String) (s : Session) : perform (freeName name) s =
    if s.isRegistered name then (.ok (), { s with names := s.names.erase name })
    else (.error (.error (.unknownName name)), s) := by
  by_cases used : s.isRegistered name <;> simp [freeName, perform_bind, used]

theorem perform_constant (k : Int32) (s : Session) :
    perform (constant k) s = (.ok (constantNamed k), s.memo k) := by
  by_cases known : k ∈ s.constants <;>
    simp [constant, emitInit, perform_bind, perform_map, known, Session.memo, Except.map]

theorem perform_emitAll_snd (cs : List Command) (s : Session) :
    (perform (emitAll cs) s).2 = s.append cs := by
  cases h : s.scopes with
  | nil =>
    cases cs with
    | nil => exact (Session.append_nil s).symm
    | cons c cs => simp [emitAll, perform_bind, Session.append, h]
  | cons top others =>
    rw [Emits.emitAll cs s (by simp [h])]
    rfl

theorem perform_leave (s : Session) :
    (s.scopes = [] ∧ perform leave s = (.error (.error .noActiveScope), s)) ∨
      ∃ cs others, s.scopes = cs :: others ∧ perform leave s = (.ok cs, { s with scopes := others }) := by
  cases h : s.scopes with
  | nil => exact .inl ⟨rfl, by simp [leave, perform_bind, h]⟩
  | cons cs others => exact .inr ⟨cs, others, rfl, by simp [leave, perform_bind, perform_map, Except.map, h]⟩

theorem perform_endScope_cases (depth : Nat) (outcome : Except Error α) (t : Session) :
    ∃ r scopes, perform (endScope depth outcome) t = (r, { t with scopes := scopes }) ∧
      scopes ⊆ t.scopes ∧ ∀ a cs, r = .ok (a, cs) → cs ∈ t.scopes := by
  let unwound : Session := { t with scopes := t.scopes.drop (t.scopes.length - (depth + 1)) }
  have dropped : unwound.scopes ⊆ t.scopes := List.drop_subset _ _
  rw [endScope, perform_bind, unwindTo, perform_modify]
  simp only
  rw [perform_bind]
  rcases perform_leave unwound with ⟨-, left⟩ | ⟨cs, others, scopes, left⟩
  · rw [left]
    exact ⟨_, _, rfl, dropped, fun _ _ same => by cases same⟩
  · rw [left]
    obtain ⟨inside, rest⟩ := List.cons_subset.1 (scopes ▸ dropped)
    cases outcome with
    | ok a => exact ⟨_, others, rfl, rest, fun b ds same => by cases same; exact inside⟩
    | error cause => exact ⟨_, others, rfl, rest, fun _ _ same => by cases same⟩

theorem perform_inScope_cases (x : EmitM α) (s : Session) :
    let t := (perform x { s with scopes := [] :: s.scopes }).2
    ∃ r scopes, perform (inScope x) s = (r, { t with scopes := scopes }) ∧ scopes ⊆ t.scopes ∧
      ∀ a cs, r = .ok (a, cs) → cs ∈ t.scopes := by
  intro t
  rw [perform_inScope_eq]
  rcases ran : perform x { s with scopes := [] :: s.scopes } with ⟨(cause | _) | a, t'⟩
  · obtain rfl : t = t' := congrArg Prod.snd ran
    exact perform_endScope_cases s.depth (.error cause) t
  · obtain rfl : t = t' := congrArg Prod.snd ran
    exact ⟨_, t.scopes, rfl, List.Subset.refl _, fun _ _ same => nomatch same⟩
  · obtain rfl : t = t' := congrArg Prod.snd ran
    exact perform_endScope_cases s.depth (.ok a) t

inductive Variable.Applies (v : Variable) : ScoreOp → Source → List Command → List Int32 → Prop
  | set (k : Int32) : Applies v .set (.literal k) [.setScore v k] []
  | change (op : ScoreOp) (k : Int32) (amount : Int) : Applies v op (.literal k) [v.addCommand amount] []
  | compute (op : ScoreOp) (u : Variable) : Applies v op (.variable u) [.operateScore v op u] []
  | read {op op' : ScoreOp} (ne : op' ≠ .swap) (k l : Int32) :
      Applies v op (.literal k) [.operateScore v op' (constantNamed l)] [l]
  | refuse (k : Int32) : Applies v .swap (.literal k) [] []

theorem perform_operate (v : Variable) (op : ScoreOp) (source : Source) (s : Session) :
    ∃ r cs ks, perform (v.operate op source) s = (r, (s.memoize ks).append cs) ∧
      v.Applies op source cs ks := by
  have plain {c : Command} (applies : v.Applies op source [c] []) : ∃ r cs ks,
      perform (emit c) s = (r, (s.memoize ks).append cs) ∧ v.Applies op source cs ks :=
    ⟨_, [c], [], Prod.ext rfl (perform_emitAll_snd [c] s), applies⟩
  have read {op' : ScoreOp} {l : Int32}
      (applies : v.Applies op source [.operateScore v op' (constantNamed l)] [l]) : ∃ r cs ks,
      perform (constant l >>= fun c => v.operateBy op' c) s = (r, (s.memoize ks).append cs) ∧
        v.Applies op source cs ks := by
    refine ⟨_, _, [l], Prod.ext rfl ?_, applies⟩
    rw [perform_bind, perform_constant]
    exact perform_emitAll_snd _ _
  match source with
  | .variable u => exact plain (.compute op u)
  | .literal k =>
    have add (amount : Int) : ∃ r cs ks, perform (v.addNumber amount) s = (r, (s.memoize ks).append cs) ∧
        v.Applies op (.literal k) cs ks := by
      unfold Variable.addNumber
      split
      · exact plain (.change op k amount)
      · exact read (.read (by decide) k _)
    cases op with
    | set => exact plain (.set k)
    | add => exact add _
    | sub => exact add _
    | swap => exact ⟨_, [], [], Prod.ext rfl (Session.append_nil s).symm, .refuse k⟩
    | mul | div | mod | min | max => exact read (.read (by decide) k k)

theorem perform_operate_literal {v : Variable} (foreign : v.IsForeign) (op : ScoreOp) (k : Int32)
    (s : Session) : ∃ r cs ks, perform (v.operate op (.literal k)) s = (r, (s.memoize ks).append cs) ∧
      ∀ c ∈ cs, c.Respects ks := by
  obtain ⟨r, cs, ks, ran, applies⟩ := perform_operate v op (.literal k) s
  refine ⟨r, cs, ks, ran, ?_⟩
  cases applies with
  | set => exact List.forall_mem_singleton.2 (.setScore foreign k)
  | change op k amount => exact List.forall_mem_singleton.2 (.addCommand foreign amount)
  | read ne k l =>
    exact List.forall_mem_singleton.2 (.operateConstant foreign ne (List.mem_singleton_self l))
  | refuse => exact List.forall_mem_nil _

end perform

structure Session.Lasts (I : Session → Prop) : Prop where
  congr : ∀ {s t : Session}, I s → t.constants = s.constants → t.init = s.init → I t
  memo : ∀ {s : Session} (k : Int32), I s → I (s.memo k)
  extendInit : ∀ {s : Session} {cs : List Command}, (∀ c ∈ cs, c.Respects s.constants) → I s →
    I (s.extendInit cs)

theorem Session.Lasts.memoize {I : Session → Prop} (lasts : Session.Lasts I) (ks : List Int32) {s : Session}
    (holds : I s) : I (s.memoize ks) := by
  induction ks generalizing s with
  | nil => exact holds
  | cons k ks ih => exact ih (lasts.memo k holds)

theorem Session.Lasts.append {I : Session → Prop} (lasts : Session.Lasts I) (cs : List Command) {s : Session}
    (holds : I s) : I (s.append cs) :=
  lasts.congr holds (s.constants_append cs) (s.init_append cs)

/-- What a client does keeps the table and the initialization in step, takes no constant back, and keeps
everything that lasts. -/
theorem Client.preserves {I : Session → Prop} (lasts : Session.Lasts I) {α : Type} {x : EmitM α} {s : Session}
    (client : Client x s) (sound : s.Materializes) (holds : I s) :
    (perform x s).2.Materializes ∧ s.constants ⊆ (perform x s).2.constants ∧ I (perform x s).2 := by
  induction client with
  | pure | fail | look => exact ⟨sound, List.Subset.refl _, holds⟩
  | bind first second ih ih' =>
    obtain ⟨sound', grown, holds'⟩ := ih sound holds
    rw [perform_bind]
    generalize ran : perform _ _ = result at sound' grown holds' ⊢
    obtain ⟨outcome, t⟩ := result
    cases outcome with
    | error e => exact ⟨sound', grown, holds'⟩
    | ok a =>
      obtain ⟨sound'', grown', holds''⟩ := ih' a t ran sound' holds'
      exact ⟨sound'', List.Subset.trans grown grown', holds''⟩
  | attempt step ih =>
    rw [perform_attempt_snd]
    exact ih sound holds
  | registerName name s =>
    rw [perform_registerName]
    split <;> exact ⟨sound.congr rfl rfl sound.respect, List.Subset.refl _, lasts.congr holds rfl rfl⟩
  | freeName name s =>
    rw [perform_freeName]
    split <;> exact ⟨sound.congr rfl rfl sound.respect, List.Subset.refl _, lasts.congr holds rfl rfl⟩
  | newTag s => exact ⟨sound.congr rfl rfl sound.respect, List.Subset.refl _, lasts.congr holds rfl rfl⟩
  | enter s => exact ⟨sound.entered, List.Subset.refl _, lasts.congr holds rfl rfl⟩
  | leave s =>
    rcases perform_leave s with ⟨-, left⟩ | ⟨cs, others, scopes, left⟩
    · rw [left]
      exact ⟨sound, List.Subset.refl _, holds⟩
    · rw [left]
      have closed := sound.reopen (scopes ▸ List.subset_cons_self _ _)
      exact ⟨closed, List.Subset.refl _, lasts.congr holds rfl rfl⟩
  | @emitAll cs s respect =>
    rw [perform_emitAll_snd, Session.constants_append]
    exact ⟨sound.append respect, List.Subset.refl _, lasts.append cs holds⟩
  | @emitInit c s respects =>
    have each := List.forall_mem_singleton.2 respects
    exact ⟨sound.extendInit each, List.Subset.refl _, lasts.extendInit each holds⟩
  | constant k s =>
    rw [perform_constant]
    exact ⟨sound.memo k, fun l mem => (s.mem_constants_memo).2 (.inl mem), lasts.memo k holds⟩
  | @operate v foreign op k s =>
    obtain ⟨r, cs, ks, ran, respect⟩ := perform_operate_literal foreign op k s
    have listed : ks ⊆ (s.memoize ks).constants := fun l mem => (s.mem_constants_memoize ks).2 (.inr mem)
    rw [ran, Session.constants_append]
    exact ⟨(sound.memoize ks).append fun c mem => (respect c mem).mono listed,
      fun l mem => (s.mem_constants_memoize ks).2 (.inl mem), lasts.append cs (lasts.memoize ks holds)⟩
  | @inScope α x s body ih =>
    obtain ⟨r, scopes, ran, subset, -⟩ := perform_inScope_cases x s
    obtain ⟨sound', grown, holds'⟩ := ih sound.entered (lasts.congr holds rfl rfl)
    rw [ran]
    exact ⟨sound'.reopen subset, grown, lasts.congr holds' rfl rfl⟩
  | @inInit α x s body ih =>
    obtain ⟨r, scopes, ran, subset, returned⟩ := perform_inScope_cases x s
    obtain ⟨sound', grown, holds'⟩ := ih sound.entered (lasts.congr holds rfl rfl)
    have closed := sound'.reopen subset
    have kept : I { (perform x _).2 with scopes := scopes } := lasts.congr holds' rfl rfl
    rw [BlockComputer.inInit, perform_bind, ran]
    cases r with
    | error e => exact ⟨closed, grown, kept⟩
    | ok value =>
      have respect := sound'.respect _ (returned _ _ rfl)
      exact ⟨closed.extendInit respect, grown, lasts.extendInit respect kept⟩
  | @emitBlockUnder x qs s respect body ih =>
    obtain ⟨r, scopes, ran, subset, returned⟩ := perform_inScope_cases x s
    obtain ⟨sound', grown, holds'⟩ := ih sound.entered (lasts.congr holds rfl rfl)
    have closed := sound'.reopen subset
    have kept : I { (perform x _).2 with scopes := scopes } := lasts.congr holds' rfl rfl
    rw [BlockComputer.emitBlockUnder, capture, perform_bind, perform_map, ran]
    cases r with
    | error e => exact ⟨closed, grown, kept⟩
    | ok value =>
      have guarded : ∀ c ∈ value.2.map (Command.guarded qs), c.Respects _ :=
        List.forall_mem_map.2 fun c mem => (sound'.respect _ (returned _ _ rfl) c mem).guarded
          fun q inside => (respect q inside).mono grown
      change (perform (BlockComputer.emitAll _) _).2.Materializes ∧
        s.constants ⊆ (perform (BlockComputer.emitAll _) _).2.constants ∧
          I (perform (BlockComputer.emitAll _) _).2
      rw [perform_emitAll_snd, Session.constants_append]
      exact ⟨closed.append guarded, grown, lasts.append _ kept⟩

theorem Client.materializes {α : Type} {x : EmitM α} {s : Session} (client : Client x s)
    (sound : s.Materializes) :
    (perform x s).2.Materializes ∧ s.constants ⊆ (perform x s).2.constants :=
  have lasts : Session.Lasts fun _ => True := ⟨fun _ _ _ => trivial, fun _ _ => trivial, fun _ _ => trivial⟩
  have ⟨sound', grown, _⟩ := client.preserves lasts sound trivial
  ⟨sound', grown⟩

namespace Client

variable {s : Session}

theorem create {name : String} (foreign : Variable.IsForeign ⟨name⟩) (value : Int32) (s : Session) :
    Client (Variable.create name value) s :=
  .bind (.registerName name s) fun _ _ _ =>
    .bind (.emitAll (List.forall_mem_singleton.2 (.setScore foreign value))) fun _ _ _ => .pure _ _

theorem capture {x : EmitM Unit} (body : Client x { s with scopes := [] :: s.scopes }) :
    Client (capture x) s := by
  rw [BlockComputer.capture, map_eq_pure_bind]
  exact .bind (.inScope body) fun _ _ _ => .pure _ _

theorem captureChain {x : EmitM Unit} (body : Client x { s with scopes := [] :: s.scopes })
    (label : String) (onlyChain : Bool) : Client (captureChain label onlyChain x) s :=
  .bind (.capture body) fun _ _ _ => .pure _ _

theorem emitBlock {b : Branch} (foreign : ∀ v ∈ b.condition.reads, v.IsForeign) {x : EmitM Unit}
    (body : Client x { s with scopes := [] :: s.scopes }) : Client (b.emitBlock x) s :=
  .bind (.emitBlockUnder (List.forall_mem_singleton.2 (.guard foreign)) body) fun _ _ _ => .pure _ _

theorem runIf {c : Condition} (foreign : ∀ v ∈ c.reads, v.IsForeign) {x : EmitM Unit}
    (body : Client x { s with scopes := [] :: s.scopes }) : Client (runIf c x) s :=
  .emitBlock (b := ⟨c, false⟩) foreign body

end Client

/-- Behind everything that a client did in a new session each constant has been set once, in front of
whatever reads it. An operation with a number sets the numbers that its commands read before it emits
them, wherever they go; the sessions in which bodies run are those that `enter` leads to. -/
theorem constants_precede_readers {α : Type} {x : EmitM α} (client : Client x {}) :
    let s := (perform x {}).2
    s.Materializes ∧ ∀ (v : Variable) (op : ScoreOp) (k : Int32), v.IsForeign →
      ∃ (r : Except Failure Unit) (cs : List Command) (t : Session),
        perform (v.operate op (.literal k)) s = (r, t.append cs) ∧ t.Materializes ∧ t.scopes = s.scopes ∧
          ∀ c ∈ cs, ∀ l, constantNamed l ∈ c.reads → setNumber l ∈ t.init := by
  intro s
  have sound := (client.materializes .empty).1
  refine ⟨sound, fun v op k foreign => ?_⟩
  obtain ⟨r, cs, ks, ran, respect⟩ := perform_operate_literal foreign op k s
  have before := sound.memoize ks
  refine ⟨r, cs, s.memoize ks, ran, before, Session.scopes_memoize _ _, fun c mem l reads => ?_⟩
  exact before.set l ((s.mem_constants_memoize ks).2 (.inr ((respect c mem).known l reads)))

def forgetfulClient : EmitM Unit := do
  enter
  let _ ← Variable.create "v" 0
  let _ ← attempt (capture do
    Variable.operate ⟨"v"⟩ .mul (.literal 7)
    reject .noActiveScope)
  let _ ← captureChain "nested" true do
    inInit (Variable.operate ⟨"v"⟩ .div (.literal 7))
    let _ ← runIf (.inRange ⟨"v"⟩ (.atLeast 3)) (Variable.operate ⟨"v"⟩ .mod (.literal 5))

theorem constants_precede_readers_forgetful :
    Client forgetfulClient {} ∧ (perform forgetfulClient {}).2.Materializes ∧
      (perform forgetfulClient {}).2.constants = [7, 5] ∧
      (perform forgetfulClient {}).2.init = [.addObjective, setNumber 7,
        .operateScore ⟨"v"⟩ .div (constantNamed 7), setNumber 5] := by
  have foreign : Variable.IsForeign ⟨"v"⟩ := Variable.isForeign_of_isWord (by decide)
  have guards : ∀ v ∈ (Condition.inRange ⟨"v"⟩ (.atLeast 3)).reads, v.IsForeign :=
    List.forall_mem_singleton.2 foreign
  have operates (op : ScoreOp) (k : Int32) (s : Session) := Client.operate foreign op k s
  have client : Client forgetfulClient {} :=
    .bind (.enter _) fun _ _ _ => .bind (.create foreign 0 _) fun _ _ _ =>
      .bind (.attempt (.capture (.bind (operates .mul 7 _) fun _ _ _ => .fail _ _))) fun _ _ _ =>
        .bind (.captureChain (.bind (.inInit (operates .div 7 _)) fun _ _ _ =>
          .bind (.runIf guards (operates .mod 5 _)) fun _ _ _ => .pure _ _) _ _) fun _ _ _ => .pure _ _
  exact ⟨client, (constants_precede_readers client).1, by decide +kernel, by decide +kernel⟩

end BlockComputer
