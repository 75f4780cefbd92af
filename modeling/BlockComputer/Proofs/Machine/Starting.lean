import BlockComputer.Proofs.Emission.Growth
import BlockComputer.Proofs.Machine.Control
import BlockComputer.Proofs.World.Operands

/-!
How a machine is started: its print cards, its entities and registers, and the program in its memory.

In a session whose names are free none of these steps fails, and each of them only adds to the names, the
tags and the initialization.
-/

namespace BlockComputer

variable {α β : Type}

/-- Where a scope is open and the names are free the step takes the names and emits the commands. -/
def Drafts (x : EmitM α) (a : α) (names : List String) (cs : List Command) : Prop :=
  ∀ s : Session, s.scopes ≠ [] → s.Free names → perform x s = (.ok a, (s.register names).append cs)

theorem Declares.drafts {x : EmitM α} {a : α} {vars : List (String × Int32)} (h : Declares x a vars) :
    Drafts x a (vars.map Prod.fst) (vars.map setNamed) :=
  h.succeeds

theorem Emits.drafts {x : EmitM α} {a : α} {cs : List Command} (h : Emits x a cs []) :
    Drafts x a [] cs := by
  intro s open_ _
  rw [h s open_, Session.register_nil]
  rfl

namespace Drafts

variable {x : EmitM α} {a : α} {b : β} {names others : List String} {cs ds : List Command}

theorem bind {f : α → EmitM β} (first : Drafts x a names cs) (second : Drafts (f a) b others ds) :
    Drafts (x >>= f) b (names ++ others) (cs ++ ds) := by
  intro s open_ free
  have still : ((s.register names).append cs).scopes ≠ [] := Session.scopes_append_ne_nil _ _ open_
  have free' : ((s.register names).append cs).Free others := by
    rw [Session.Free, Session.names_append]
    exact free.right
  rw [perform_bind, first s open_ free.left]
  simp only
  rw [second _ still free', Session.append_register, Session.append_append, Session.register_append]

theorem perform_marked {f : Entity → EmitM α} {a : Entity → α} {cs : Entity → List Command}
    (drafts : ∀ e, Drafts (f e) (a e) names (cs e)) {s : Session} (free : s.Free names) :
    perform (inInit (newMarker >>= f)) s =
      (.ok (a s.nextMarker), (s.tagged.register names).extendInit (cs s.nextMarker)) := by
  let opened : Session := { s with scopes := [] :: s.scopes }
  have body : perform (newMarker >>= f) opened =
      (.ok (a s.nextMarker), (opened.tagged.register names).append (cs s.nextMarker)) := by
    rw [perform_bind, perform_newMarker]
    exact drafts s.nextMarker opened.tagged (List.cons_ne_nil _ _) free
  rw [perform_inInit body (show _ = cs s.nextMarker :: s.scopes from rfl)]
  rfl

end Drafts

namespace Machine

def markerNumbered (n : Nat) : Entity :=
  ⟨Entity.marker, s!"e{n}"⟩

def summonOnce (e : Entity) : Command :=
  (Command.summon e).guarded [.unlessHolds (.present e)]

def clearMemory : Command :=
  .fill Layout.memoryFirst Layout.memoryLast .barrel

def memoryScores : List (String × Int32) :=
  vectorScores "mem_index" Layout.memoryFirst ++ [("mem_high", 0), ("mem_low", 0)]

def startNames : List String :=
  (memoryScores ++ registerScores).map Prod.fst

def startCommands (head cloner fetcher : Entity) : List Command :=
  memoryScores.map setNamed ++ [clearMemory, summonOnce head, summonOnce cloner, summonOnce fetcher]
    ++ registerScores.map setNamed

def startedSession (s : Session) : Session :=
  { s with
    names := s.names ++ startNames
    init := s.init ++ startCommands (markerNumbered s.nextTag) (markerNumbered (s.nextTag + 1))
      (markerNumbered (s.nextTag + 2))
    nextTag := s.nextTag + 3 }

def startedComputer (n : Nat) : Computer :=
  .standard (markerNumbered n) (markerNumbered (n + 1)) (markerNumbered (n + 2))

theorem drafts_memory (head : Entity) :
    Drafts (do
      let address ← Vector3.create "mem_index" Layout.memoryFirst
      let high ← Variable.create "mem_high" 0
      let low ← Variable.create "mem_low" 0
      let memory : Memory := { head, address, high, low }
      memory.initialState
      return memory) (.standard head) (memoryScores.map Prod.fst)
      (memoryScores.map setNamed ++ [clearMemory, summonOnce head]) := by
  have filled : Emits (Memory.standard head).initialState () [clearMemory, summonOnce head] [] :=
    (Emits.emit _).seq (Emits.emit _)
  have names : memoryScores.map Prod.fst = (vectorScores "mem_index" Layout.memoryFirst).map Prod.fst
      ++ (["mem_high"] ++ (["mem_low"] ++ ([] ++ []))) := rfl
  have commands : memoryScores.map setNamed ++ [clearMemory, summonOnce head] =
      (vectorScores "mem_index" Layout.memoryFirst).map setNamed ++ ([setNamed ("mem_high", 0)]
        ++ ([setNamed ("mem_low", 0)] ++ ([clearMemory, summonOnce head] ++ []))) := rfl
  rw [names, commands]
  exact .bind (Declares.vector _ _).drafts <| .bind (Declares.create _ _).drafts <|
    .bind (Declares.create _ _).drafts <| .bind filled.drafts (Emits.pure _).drafts

theorem perform_create {s : Session} (free : s.Free startNames) :
    perform Computer.create s = (.ok (startedComputer s.nextTag), startedSession s) := by
  rw [startNames, List.map_append] at free
  have noNames (t : Session) : t.Free [] := ⟨List.nodup_nil, fun _ mem => nomatch mem⟩
  have summoned {α : Type} (a : Entity → α) (e : Entity) :
      Drafts (do e.create; return a e) (a e) [] [summonOnce e] :=
    .bind (Emits.emit (summonOnce e)).drafts (Emits.pure _).drafts
  have memory : perform Memory.create s = _ := Drafts.perform_marked drafts_memory free.left
  have splicer (t : Session) : perform Splicer.create t = _ :=
    Drafts.perform_marked (summoned Splicer.mk) (noNames t)
  have bank (t : Session) : perform Bank.create t = _ :=
    Drafts.perform_marked (summoned Bank.mk) (noNames t)
  unfold Computer.create
  rw [perform_bind, memory]
  simp only
  rw [perform_bind, splicer]
  simp only
  rw [perform_bind, bank]
  simp only
  rw [perform_bind, Registers.declares.succeeds]
  · simp [startedSession, startedComputer, startCommands, startNames, Session.register,
      Session.extendInit, Session.tagged, Session.nextMarker, markerNumbered, Computer.standard]
  · exact free.right.congr (by simp [Session.register])

theorem perform_preload {program : List UInt16} (fits : program.length ≤ Layout.memoryWords)
    (s : Session) : perform (Memory.preload program) s =
      (.ok (), s.extendInit (Memory.preloadCommands program)) := by
  have room : ¬ Layout.memoryWords < program.length := Nat.not_lt.2 fits
  unfold Memory.preload
  simp only [room, if_false]
  exact (Emits.emitAll _).perform_inInit s

theorem perform_preload_of_long {program : List UInt16} (long : Layout.memoryWords < program.length)
    (s : Session) : perform (Memory.preload program) s =
      (.error (.error (.programTooLong program.length)), s) := by
  unfold Memory.preload
  simp only [long, if_true]
  rfl

theorem length_preloadCommands (program : List UInt16) :
    (Memory.preloadCommands program).length = 2 * program.length := by
  have pairs : (program.mapIdx Memory.preloadWord).map List.length = List.replicate program.length 2 := by
    refine List.eq_replicate_iff.2 ⟨by simp, List.forall_mem_map.2 fun pair mem => ?_⟩
    obtain ⟨i, _, rfl⟩ := List.mem_mapIdx.1 mem
    rfl
  rw [Memory.preloadCommands, List.length_flatten, pairs, List.sum_replicate_nat, Nat.mul_comm]

def newPrintCards (m : Nat) : EmitM (List (Card Id)) :=
  (List.replicate m ()).mapM fun _ => newPrintCard

def withDisplays (s : Session) (values : List Variable) : Session :=
  s.declare (values.map fun v => (v.name, 0))

theorem perform_newPrintCard (s : Session) :
    let value : Variable := ⟨s.freshName "card_print"⟩
    perform newPrintCard s = (.ok (printCard value), withDisplays s [value]) := by
  let opened : Session := { s with scopes := [] :: s.scopes }
  have unused := s.freshName_notMem "card_print"
  have fresh : perform (freshName "card_print" : EmitM String) opened =
    (.ok (s.freshName "card_print"), opened) := rfl
  generalize s.freshName "card_print" = name at unused fresh
  have free : opened.Free [name] := ⟨List.nodup_singleton _, List.forall_mem_singleton.2 unused⟩
  have created := (Declares.create name 0).bind (f := fun v => Pure.pure (printCard (m := Id) v))
    (.pure _)
  have body : perform (do return printCard (m := Id) (← Variable.create (← freshName "card_print") 0))
      opened = (.ok (printCard ⟨name⟩), (opened.register [name]).append [setNamed (name, 0)]) := by
    rw [perform_bind, fresh]
    exact created.succeeds opened (List.cons_ne_nil _ _) free
  intro value
  rw [newPrintCard, perform_inInit body (show _ = [setNamed (name, 0)] :: s.scopes from rfl)]
  simp [opened, value, withDisplays, Session.declare, Session.register, Session.extendInit,
    Session.append]

theorem isName_freshName (s : Session) : Text.isName (s.freshName "card_print") := by
  rcases s.freshName_eq_or "card_print" with same | ⟨n, same⟩
  · rw [same]
    decide
  · rw [same]
    exact Text.isName_append (by decide) (Text.isName_nat n)

theorem perform_newPrintCards (m : Nat) (s : Session) :
    ∃ values : List Variable, values.length = m ∧ (∀ v ∈ values, Variable.IsDisplay v) ∧ AreNamed values ∧
      perform (newPrintCards m) s = (.ok (values.map printCard), withDisplays s values) := by
  induction m generalizing s with
  | zero =>
    refine ⟨[], rfl, List.forall_mem_nil _, List.forall_mem_nil _, ?_⟩
    simp [newPrintCards, withDisplays, Session.declare, Session.register, Session.extendInit]
  | succ m ih =>
    obtain ⟨values, length, displays, named, made⟩ := ih (withDisplays s [⟨s.freshName "card_print"⟩])
    refine ⟨⟨s.freshName "card_print"⟩ :: values, congrArg Nat.succ length,
      List.forall_mem_cons.2 ⟨isDisplay_freshName s, displays⟩,
      List.forall_mem_cons.2 ⟨isName_freshName s, named⟩, ?_⟩
    unfold newPrintCards at made ⊢
    rw [List.replicate_succ, List.mapM_cons, perform_bind, perform_newPrintCard]
    simp only
    rw [perform_bind, made]
    simp [withDisplays, Session.declare, Session.register, Session.extendInit]

end Machine

end BlockComputer
