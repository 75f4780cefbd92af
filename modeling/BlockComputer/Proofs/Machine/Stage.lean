import BlockComputer.Proofs.Machine.Transfer

/-!
The stages of a chain, and what each does to a state.

A row of the machine is a list of stages: score commands and accesses to the memory, with or without a
guard, and accesses to the register bank. In a world that shows a state a stage runs to its end and
leaves a world that shows the state with the effect of the stage.
-/

namespace BlockComputer

theorem Condition.holds_ofComparison_variable (w : World) (v : Variable) (c : Comparison)
    (u : Variable) :
    (Condition.ofComparison v c (.variable u)).holds w = c.holds (w.score v) (w.score u) := rfl

namespace Machine

def State.value (s : State) : Source → Int32
  | .variable v => s.scores v
  | .literal k => k

def sourceReads : Source → List Variable
  | .variable v => [v]
  | .literal _ => []

/-- The commands of a stage without its guard. -/
inductive Deed where
  | operate (target : Variable) (op : ScoreOp) (source : Source)
  | memory (access : Memory.Access)
  | announce (v : Variable)
deriving DecidableEq, Repr

namespace Deed

def commands (head : Entity) : Deed → List Command
  | .operate target op source => [target.operateCommand op source]
  | .memory access => access.commands head
  | .announce v => [.tellScore v]

def effect : Deed → State → State
  | .operate target op source, s => s.setScore target (op.apply (s.scores target) (s.value source))
  | .memory access, s => access.effect s
  | .announce _, s => s

def touches : Deed → List Variable
  | .operate target _ _ => [target]
  | .memory access => access.writes ++ Memory.scratch
  | .announce _ => []

def IsSafe : Deed → Prop
  | .operate target op source =>
    Variable.IsLoose target ∧ target ∉ Memory.scratch ∧ op ≠ .swap ∧
      (∀ v ∈ sourceReads source, v ∉ Memory.scratch) ∧
      Variable.operateConstants op source ⊆ machineConstants
  | .memory access =>
    (∀ v ∈ access.operands, v ∉ Memory.scratch) ∧ ∀ v ∈ access.writes, Variable.IsLoose v
  | .announce _ => True

def isPlain : Deed → Bool
  | .memory (.store ..) | .memory (.push ..) => false
  | _ => true

instance (d : Deed) : Decidable d.IsSafe :=
  match d with
  | .operate .. => inferInstanceAs (Decidable (_ ∧ _ ∧ _ ∧ _ ∧ _))
  | .memory _ => inferInstanceAs (Decidable (_ ∧ _))
  | .announce _ => .isTrue trivial

theorem movesBlocks_commands (head : Entity) (d : Deed) :
    ∀ c ∈ d.commands head, c.movesBlocks = false := by
  have all {cs : List Command} (still : cs.all (fun c => !c.movesBlocks) = true) (c : Command)
      (mem : c ∈ cs) : c.movesBlocks = false := by
    simpa using List.all_eq_true.1 still c mem
  cases d with
  | operate target op source =>
    intro c mem
    obtain rfl := List.mem_singleton.1 mem
    cases source with
    | «variable» u => rfl
    | literal k =>
      cases op with
      | add | sub =>
        simp only [Variable.operateCommand, Variable.addCommand]
        split <;> rfl
      | _ => rfl
  | memory access =>
    cases access with
    | load | store | push | pop => exact all rfl
  | announce v => exact all rfl

theorem staysIn_load (head : Entity) (index target : Variable) :
    ∀ c ∈ (Memory.standard head).loadCommands index target, c.staysIn (target :: Memory.scratch) := by
  have own {c : Command} (stays : c.staysIn Memory.scratch) : c.staysIn (target :: Memory.scratch) :=
    Command.staysIn_mono stays fun v inside => List.mem_cons_of_mem _ inside
  have written {c : Command} (stays : c.staysIn [target]) : c.staysIn (target :: Memory.scratch) :=
    Command.staysIn_mono stays fun v inside => List.mem_singleton.1 inside ▸ List.mem_cons_self
  have sought : ((Memory.standard head).seekCommands index).all (Command.staysIn Memory.scratch) := rfl
  refine List.forall_mem_append.2 ⟨fun c mem => own (List.all_eq_true.1 sought c mem), ?_⟩
  simp only [List.forall_mem_cons]
  exact ⟨own rfl, own rfl, written (Command.staysIn_operateScore _ _ (by decide)),
    written (Command.staysIn_addCommand _ _), written (Command.staysIn_operateScore _ _ (by decide)),
    written (Command.staysIn_operateScore _ _ (by decide)), written (Command.staysIn_addCommand _ _),
    List.forall_mem_nil _⟩

theorem staysIn_commands (head : Entity) {d : Deed} (plain : d.isPlain) (safe : d.IsSafe) :
    ∀ c ∈ d.commands head, c.staysIn d.touches := by
  cases d with
  | operate target op source =>
    intro c mem
    obtain rfl := List.mem_singleton.1 mem
    have ne := safe.2.2.1
    cases source with
    | «variable» u => exact Command.staysIn_operateScore _ _ ne
    | literal k =>
      cases op with
      | add | sub => exact Command.staysIn_addCommand target _
      | set => simp [Variable.operateCommand, Command.staysIn_iff, Command.isPlain, Command.touches,
          Command.writes, touches]
      | swap => exact absurd rfl ne
      | _ => exact Command.staysIn_operateScore _ _ (by decide)
  | memory access =>
    cases access with
    | store | push => cases plain
    | load index target => exact staysIn_load head index target
    | pop pointer target =>
      refine List.forall_mem_cons.2 ⟨?_, fun c mem => ?_⟩
      · refine Command.staysIn_mono (Command.staysIn_addCommand pointer 1) fun v inside => ?_
        exact List.mem_singleton.1 inside ▸ List.mem_cons_self
      · exact Command.staysIn_mono (staysIn_load head pointer target c mem) fun v inside =>
          List.mem_cons_of_mem _ inside
  | announce v => simp [commands, Command.staysIn_iff, Command.isPlain, Command.touches, Command.writes]

theorem scores_effect (d : Deed) {v : Variable} (other : v ∉ d.touches) (s : State) :
    (d.effect s).scores v = s.scores v := by
  cases d with
  | operate target op source =>
    exact State.scores_setScore_of_ne _ (fun same => other (List.mem_singleton.2 same)) _
  | memory access => exact access.scores_effect (fun mem => other (List.mem_append_left _ mem)) s
  | announce v => rfl

end Deed

structure Test where
  left : Variable
  relation : Comparison
  right : Source
  negated : Bool := false
deriving DecidableEq, Repr

namespace Test

def branch (t : Test) : Branch :=
  ⟨.ofComparison t.left t.relation t.right, t.negated⟩

def opposite (t : Test) : Test :=
  { t with negated := !t.negated }

def holds (t : Test) (s : State) : Bool :=
  t.relation.holds (s.scores t.left) (s.value t.right) != t.negated

def reads (t : Test) : List Variable :=
  t.left :: sourceReads t.right

theorem reads_branch (t : Test) : ∀ v ∈ t.branch.condition.reads, v ∈ t.reads := by
  obtain ⟨left, relation, right, negated⟩ := t
  cases right with
  | «variable» u => exact fun v mem => mem
  | literal k => exact fun v mem => mem

theorem holds_opposite (t : Test) (s : State) : t.opposite.holds s = !t.holds s := by
  obtain ⟨left, relation, right, negated⟩ := t
  cases negated <;> simp [opposite, holds]

theorem holds_congr {t : Test} {s s' : State} (same : ∀ v ∈ t.reads, s'.scores v = s.scores v) :
    t.holds s' = t.holds s := by
  obtain ⟨left, relation, right, negated⟩ := t
  have sameLeft := same left List.mem_cons_self
  cases right with
  | «variable» u =>
    have sameRight := same u (List.mem_cons_of_mem _ List.mem_cons_self)
    simp only [holds, State.value, sameLeft, sameRight]
  | literal k => simp only [holds, State.value, sameLeft]

theorem holds_setScore {t : Test} {v : Variable} (apart : v ∉ t.reads) (s : State) (n : Int32) :
    t.holds (s.setScore v n) = t.holds s := by
  refine holds_congr fun u read => State.scores_setScore_of_ne _ ?_ n
  rintro rfl
  exact apart read

end Test

/-- The deed does not decide about the test while it is done: it is a single command, or it spares what
the test reads. -/
def Deed.Settles (t : Test) : Deed → Prop
  | .operate .. => True
  | d => d.isPlain ∧ ∀ v ∈ t.reads, v ∉ d.touches

instance (d : Deed) (t : Test) : Decidable (d.Settles t) :=
  match d with
  | .operate .. => .isTrue trivial
  | .memory _ => inferInstanceAs (Decidable (_ ∧ _))
  | .announce _ => inferInstanceAs (Decidable (_ ∧ _))

namespace Ground.Shows

variable {G : Ground} {w : World} {s : State}

theorem holds_branch (h : G.Shows w s) {t : Test} (apart : ∀ v ∈ t.reads, v ∉ Memory.scratch) :
    t.branch.holds w = t.holds s := by
  obtain ⟨left, relation, right, negated⟩ := t
  have sameLeft := h.scores left (apart left List.mem_cons_self)
  cases right with
  | «variable» u =>
    have sameRight := h.scores u (apart u (List.mem_cons_of_mem _ List.mem_cons_self))
    rw [Test.branch, Branch.holds, Condition.holds_ofComparison_variable, sameLeft, sameRight]
    rfl
  | literal k =>
    rw [Test.branch, Branch.holds, Condition.holds_ofComparison, sameLeft]
    rfl

theorem after_operateCommand (h : G.Shows w s) {v : Variable} {op : ScoreOp} {source : Source}
    (safe : (Deed.operate v op source).IsSafe) (origin : Point) :
    (v.operateCommand op source).after origin w =
      w.setScore v (op.apply (s.scores v) (s.value source)) := by
  obtain ⟨-, apart, ne, reads, known⟩ := safe
  have target := h.scores v apart
  cases source with
  | «variable» u =>
    have value := h.scores u (reads u List.mem_cons_self)
    rw [Variable.operateCommand, Command.after_operateScore _ _ _ _ ne, target, value]
    rfl
  | literal k =>
    have byConstant (mem : k ∈ machineConstants) :
        (Command.operateScore v op (constantNamed k)).after origin w =
          w.setScore v (op.apply (s.scores v) k) := by
      rw [h.knows_machine.after_operateScore mem ne, target]
    cases op with
    | set => rfl
    | add => rw [Variable.operateCommand, Variable.after_addCommand, target, Int32.ofInt_toInt]; rfl
    | sub =>
      rw [Variable.operateCommand, Variable.after_addCommand, target, Int32.ofInt_neg,
        Int32.ofInt_toInt, ← Int32.sub_eq_add_neg]
      rfl
    | swap => exact absurd rfl ne
    | mul | div | mod | min | max => exact byConstant (known List.mem_cons_self)

theorem deed (h : G.Shows w s) {d : Deed} (safe : d.IsSafe) (p : Site) :
    G.Shows (w.runAll p (d.commands G.head)) (d.effect s) := by
  cases d with
  | operate target op source =>
    rw [Deed.commands, World.runAll_cons, World.runAll_nil, h.after_operateCommand safe]
    exact h.setScore safe.1 _
  | memory access =>
    have proper : access.IsProper := ⟨safe.1, fun v written => (safe.2 v written).foreign⟩
    have known : access.constants ⊆ G.constants := by
      have load : Memory.loadConstants ⊆ machineConstants := by decide
      have store : Memory.storeConstants ⊆ machineConstants := by decide
      cases access with
      | load | pop => exact List.Subset.trans load G.vital
      | store | push => exact List.Subset.trans store G.vital
    exact h.of_leaves safe.2 (Memory.Access.leaves h.toDepicts h.knows proper known p)
  | announce v => exact h.of_runAll rfl p

/-- A guarded deed is done or not. A deed of one command may change what its guard reads. -/
theorem guarded (h : G.Shows w s) {t : Test} {d : Deed} (safe : d.IsSafe)
    (apart : ∀ v ∈ t.reads, v ∉ Memory.scratch) (settled : d.Settles t) (p : Site) :
    G.Shows (w.runAll p ((d.commands G.head).map (Command.guarded [t.branch.guard])))
      (if t.holds s then d.effect s else s) := by
  have verdict := h.holds_branch apart
  have spared (plain : d.isPlain ∧ ∀ v ∈ t.reads, v ∉ d.touches) :
      G.Shows (w.runAll p ((d.commands G.head).map (Command.guarded [t.branch.guard])))
        (if t.holds s then d.effect s else s) := by
    have settled : ∀ c ∈ d.commands G.head, c.Settled t.branch.condition := fun c mem => by
      have stays := Command.staysIn_iff.1 (Deed.staysIn_commands G.head plain.1 safe c mem)
      exact Command.settled_of_isPlain stays.1 fun v reads touched =>
        plain.2 v (t.reads_branch v reads) (stays.2 v touched)
    rw [runAll_guarded settled, verdict]
    split
    · exact h.deed safe p
    · exact h
  -- an operation is a single command, and nothing reads the test behind it; every other deed spares the test
  cases d with
  | memory access => exact spared settled
  | announce v => exact spared settled
  | operate target op source =>
    have done := h.deed safe p
    rw [Deed.commands, World.runAll_cons, World.runAll_nil] at done
    rw [Deed.commands, List.map_cons, List.map_nil, World.runAll_cons, World.runAll_nil,
      Command.after_guarded, verdict]
    split
    · exact done
    · exact h

end Ground.Shows

inductive Stage where
  | always (deed : Deed)
  | guarded (test : Test) (deed : Deed)
  | transfer (kind : BankAccess) (index : Variable)
deriving DecidableEq, Repr

namespace Stage

def items (c : Computer) : Stage → List Item
  | .always d => (d.commands c.memory.head).map .unit
  | .guarded t d => ((d.commands c.memory.head).map (Command.guarded [t.branch.guard])).map .unit
  | .transfer kind index => c.bank.accessItems kind index

def effect : Stage → State → State
  | .always d, s => d.effect s
  | .guarded t d, s => if t.holds s then d.effect s else s
  | .transfer kind index, s => s.transfer kind (s.scores index)

def touches : Stage → List Variable
  | .always d | .guarded _ d => d.touches
  | .transfer kind _ => kind.registers.map kind.target

def IsSafe : Stage → Prop
  | .always d => d.IsSafe
  | .guarded t d => d.IsSafe ∧ (∀ v ∈ t.reads, v ∉ Memory.scratch) ∧ d.Settles t
  | .transfer _ index => index ∉ Memory.scratch

instance (stage : Stage) : Decidable stage.IsSafe :=
  match stage with
  | .always _ => inferInstanceAs (Decidable (Deed.IsSafe _))
  | .guarded .. => inferInstanceAs (Decidable (_ ∧ _ ∧ _))
  | .transfer .. => inferInstanceAs (Decidable (_ ∉ _))

theorem scores_effect (stage : Stage) {v : Variable} (other : v ∉ stage.touches) (s : State) :
    (stage.effect s).scores v = s.scores v := by
  cases stage with
  | always d => exact d.scores_effect other s
  | guarded t d =>
    simp only [effect]
    split
    · exact d.scores_effect other s
    · rfl
  | transfer kind index =>
    simp only [effect, State.transfer]
    split
    · rfl
    · next u number =>
      refine State.scores_setScore_of_ne _ ?_ _
      rintro rfl
      exact other (List.mem_map_of_mem (kind.mem_registers number))

end Stage

def effects (stages : List Stage) (s : State) : State :=
  stages.foldl (fun s stage => stage.effect s) s

theorem scores_effects {stages : List Stage} {v : Variable} (other : ∀ stage ∈ stages, v ∉ stage.touches)
    (s : State) : (effects stages s).scores v = s.scores v := by
  induction stages generalizing s with
  | nil => rfl
  | cons stage stages ih =>
    have later := ih (fun next mem => other next (List.mem_cons_of_mem _ mem)) (stage.effect s)
    exact later.trans (stage.scores_effect (other stage List.mem_cons_self) s)

namespace Ground

/-- Wherever the items run in a world that shows the state `s`, they run to their end and leave a world
that shows the state `t`. -/
structure Leads (G : Ground) (items : List Item) (s t : State) : Prop where
  runs : ∀ {w : World}, G.Shows w s → ∀ p, ∃ w', RunsInPlace territory p items w w' ∧ G.Shows w' t

variable {G : Ground} {s t u : State}

namespace Leads

theorem nil (s : State) : G.Leads [] s s :=
  ⟨fun h _ => ⟨_, .nil, h⟩⟩

theorem append {left right : List Item} (first : G.Leads left s t) (second : G.Leads right t u) :
    G.Leads (left ++ right) s u := by
  refine ⟨fun shows p => ?_⟩
  obtain ⟨v, ran, between⟩ := first.runs shows p
  obtain ⟨w', ran', last⟩ := second.runs between (p.shift (BlockComputer.units left).length)
  exact ⟨w', ran.append ran', last⟩

theorem commands {cs : List Command} (still : ∀ c ∈ cs, c.movesBlocks = false)
    (shows : ∀ {w : World}, G.Shows w s → ∀ p, G.Shows (w.runAll p cs) t) :
    G.Leads (cs.map .unit) s t :=
  ⟨fun h p => ⟨_, .commands still p _, shows h p⟩⟩

end Leads

theorem movesBlocks_guarded {cs : List Command} (still : ∀ c ∈ cs, c.movesBlocks = false)
    (qs : List Qualifier) : ∀ c ∈ cs.map (Command.guarded qs), c.movesBlocks = false := by
  intro c mem
  obtain ⟨d, inside, rfl⟩ := List.mem_map.1 mem
  exact (Command.movesBlocks_guarded qs d).trans (still d inside)

theorem leads_stage (stage : Stage) (safe : stage.IsSafe) (s : State) :
    G.Leads (stage.items G.parts.computer) s (stage.effect s) := by
  cases stage with
  | always d => exact .commands (d.movesBlocks_commands _) fun h p => h.deed safe p
  | guarded t d =>
    obtain ⟨safe, apart, settled⟩ := safe
    exact .commands (movesBlocks_guarded (d.movesBlocks_commands _) _) fun h p =>
      h.guarded safe apart settled p
  | transfer kind index => exact ⟨fun h p => h.transfer kind safe p⟩

/-- A row does to a world that shows a state what its stages do to the state. -/
theorem leads_stages {stages : List Stage} (safe : ∀ stage ∈ stages, stage.IsSafe) (s : State) :
    G.Leads (stages.flatMap (Stage.items G.parts.computer)) s (effects stages s) := by
  induction stages generalizing s with
  | nil => exact .nil s
  | cons stage stages ih =>
    have first := G.leads_stage stage (safe stage List.mem_cons_self) s
    exact first.append (ih (fun later mem => safe later (List.mem_cons_of_mem _ mem)) _)

end Ground

end Machine

end BlockComputer
