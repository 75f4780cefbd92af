import BlockComputer.Proofs.Emission.Client
import BlockComputer.Proofs.World.Slicing

/-!
What the initialization leaves in the constants.

A client materializes the constants that its operations read, and what else it does in the initialization
touches foreign scores only. So the initialization, whatever the world it runs in, leaves in every
constant the number that it is named after, and a world that is behind the initialization knows every
constant that was materialized in time.
-/

namespace BlockComputer

namespace Session

variable {s : Session}

/-- What touches a constant in the initialization is the command that sets it. -/
def SparesConstants (s : Session) : Prop :=
  ∀ c ∈ s.init, ∀ k, constantNamed k ∈ c.touches → c = setNumber k

theorem sparesConstants_empty : ({} : Session).SparesConstants := by
  intro c mem k touched
  rw [List.mem_singleton.1 mem] at touched
  cases touched

theorem SparesConstants.memo (h : s.SparesConstants) (k : Int32) : (s.memo k).SparesConstants := by
  by_cases known : k ∈ s.constants
  · rwa [Session.memo, if_pos known]
  · rw [Session.memo, if_neg known]
    refine List.forall_mem_append.2 ⟨h, List.forall_mem_singleton.2 fun l touched => ?_⟩
    rw [constantNamed_injective (List.mem_singleton.1 touched), setNumber]

theorem SparesConstants.extendInit (h : s.SparesConstants) {cs : List Command}
    (respect : ∀ c ∈ cs, c.Respects s.constants) : (s.extendInit cs).SparesConstants :=
  List.forall_mem_append.2 ⟨h, fun c mem k touched => absurd rfl ((respect c mem).foreign _ touched k)⟩

theorem SparesConstants.lasts : Session.Lasts SparesConstants where
  congr h _ init := by
    unfold SparesConstants
    rwa [init]
  memo k h := h.memo k
  extendInit respect h := h.extendInit respect

theorem SparesConstants.knows (h : s.SparesConstants) (sound : s.Materializes) (p : Site) (w : World) :
    (w.runAll p s.init).Knows s.constants := by
  intro k mem
  rw [World.score, World.scores_runAll_of_mem (sound.set k mem) fun c inside touched => h c inside k touched]
  rfl

end Session

/-- The constants are set once, before they are read, and the initialization touches them for nothing else. -/
structure Session.IsPrimed (s : Session) : Prop where
  materializes : s.Materializes
  spares : s.SparesConstants

theorem Client.isPrimed {α : Type} {x : EmitM α} {s : Session} (client : Client x s) (primed : s.IsPrimed) :
    (perform x s).2.IsPrimed :=
  have ⟨sound, _, spares⟩ := client.preserves Session.SparesConstants.lasts primed.materializes primed.spares
  ⟨sound, spares⟩

theorem Client.isPrimed_new {α : Type} {x : EmitM α} (client : Client x {}) : (perform x {}).2.IsPrimed :=
  client.isPrimed ⟨.empty, Session.sparesConstants_empty⟩

/-- A client has gone on from the session, the initialization it ended with has run, and in the constants
the world still holds what that left there. -/
def World.IsInitialized (u : World) (s : Session) : Prop :=
  ∃ (β : Type) (later : EmitM β) (w : World) (p : Site), Client later s ∧
    ∀ k, u.score (constantNamed k) = (w.runAll p (perform later s).2.init).score (constantNamed k)

theorem World.IsInitialized.of_foreign {s : Session} {v : Variable} (foreign : v.IsForeign) (w : World)
    (p : Site) (n : Int32) : ((w.runAll p s.init).setScore v n).IsInitialized s :=
  ⟨Unit, pure (), w, p, .pure () s, fun k => score_setScore_of_ne _ (foreign k).symm n⟩

theorem World.IsInitialized.knows {u : World} {s : Session} (h : u.IsInitialized s) (primed : s.IsPrimed) :
    u.Knows s.constants := by
  obtain ⟨β, later, w, p, client, same⟩ := h
  obtain ⟨sound, spares⟩ := client.isPrimed primed
  intro k mem
  rw [same]
  exact spares.knows sound p w k ((client.materializes primed.materializes).2 mem)

theorem World.IsInitialized.knows_memoize {u : World} {s : Session} {ks : List Int32} {cs : List Command}
    (h : u.IsInitialized ((s.memoize ks).append cs)) (primed : ((s.memoize ks).append cs).IsPrimed) :
    u.Knows ks := by
  refine (h.knows primed).mono fun k mem => ?_
  rw [Session.constants_append]
  exact (s.mem_constants_memoize ks).2 (.inr mem)

/-- A world that is initialized behind a step knows the constants of the step. -/
theorem Emits.knows {α : Type} {x : EmitM α} {a : α} {cs : List Command} {ks : List Int32} (h : Emits x a cs ks)
    {s : Session} (opened : s.scopes ≠ []) (client : Client x s) (primed : s.IsPrimed) {u : World}
    (initialized : u.IsInitialized ((s.memoize ks).append cs)) : u.Knows ks := by
  have behind := client.isPrimed primed
  rw [h s opened] at behind
  exact initialized.knows_memoize behind

theorem Client.knows_memoize {α : Type} {x : EmitM α} (client : Client x {}) (ks : List Int32) (p : Site)
    (w : World) : let s := (perform x {}).2.memoize ks
    (w.runAll p s.init).Knows s.constants := by
  have lasts := Session.SparesConstants.lasts
  obtain ⟨sound, -, spares⟩ := client.preserves lasts .empty Session.sparesConstants_empty
  exact (lasts.memoize ks spares).knows (sound.memoize ks) p w

end BlockComputer
