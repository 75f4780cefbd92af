import BlockComputer.Proofs.Emission.Client
import BlockComputer.Proofs.Machine.Booting
import BlockComputer.Proofs.Machine.Layout
import BlockComputer.Proofs.World.Reading

/-!
What the chains of a machine read.

No command of a machine is a mere text, so what it reads can be told. The rows and what selects them name
variables of the machine and its constants, and a print card names its value besides. All of these are plain
words, so the texts of the commands tell what they do.
-/

namespace BlockComputer

def Command.isTold : Command → Bool
  | .raw _ => false
  | .execute _ c => c.isTold
  | _ => true

/-- The command is known by its structure, it reads these scores only, and if their names are plain words so are
all its names. -/
structure Command.ReadsIn (vs : List Variable) (c : Command) : Prop where
  told : c.isTold
  reads : ∀ v ∈ c.reads, v ∈ vs
  inWords : AreNamed vs → c.inWords

instance (vs : List Variable) (c : Command) : Decidable (c.ReadsIn vs) :=
  decidable_of_iff (c.isTold ∧ (∀ v ∈ c.reads, v ∈ vs) ∧ (c.inWords ∨ ¬ AreNamed vs))
    ⟨fun h => ⟨h.1, h.2.1, h.2.2.resolve_right ∘ not_not_intro⟩,
      fun h => ⟨h.1, h.2, Decidable.or_not_of_imp h.3⟩⟩

namespace Command.ReadsIn

variable {vs us : List Variable} {c : Command} {v u : Variable}

theorem mono (h : c.ReadsIn vs) (subset : vs ⊆ us) : c.ReadsIn us :=
  ⟨h.told, fun v mem => subset (h.reads v mem), fun named => h.inWords fun v mem => named v (subset mem)⟩

theorem guarded (h : c.ReadsIn vs) {q : Qualifier} (guards : ∀ v ∈ q.reads, v ∈ vs)
    (words : AreNamed vs → q.inWords) : (c.guarded [q]).ReadsIn vs := by
  unfold Command.guarded
  split
  · exact h
  · refine ⟨h.told, fun v mem => ?_, fun named => ?_⟩
    · rcases List.mem_append.1 mem with inGuards | inCommand
      · obtain ⟨_, inside, mem⟩ := List.mem_flatMap.1 inGuards
        exact guards v (List.mem_singleton.1 inside ▸ mem)
      · exact h.reads v inCommand
    · simp [Command.inWords, words named, h.inWords named]

theorem addCommand (inside : v ∈ vs) (n : Int) : (v.addCommand n).ReadsIn vs := by
  unfold Variable.addCommand
  split <;> exact ⟨rfl, List.forall_mem_singleton.2 inside, fun named => named v inside⟩

theorem setScore (inside : v ∈ vs) (n : Int32) : (Command.setScore v n).ReadsIn vs :=
  ⟨rfl, List.forall_mem_nil _, fun named => named v inside⟩

theorem operateScore (target : v ∈ vs) (op : ScoreOp) (source : u ∈ vs) :
    (Command.operateScore v op u).ReadsIn vs :=
  ⟨rfl, List.forall_mem_cons.2 ⟨target, List.forall_mem_singleton.2 source⟩,
    fun named => Bool.and_eq_true_iff.2 ⟨named v target, named u source⟩⟩

theorem storeCommand (inside : v ∈ vs) {e : Entity} (plain : Text.isName e.tag) (axis : Nat) :
    (Piece.storeCommand e axis v).ReadsIn vs := by
  refine ⟨rfl, List.forall_mem_singleton.2 inside, fun named => ?_⟩
  have path : Text.isName (Entity.axisPath axis) :=
    Text.isName_append (Text.isName_append (by decide) (Text.isName_nat axis)) (by decide)
  simp [Piece.storeCommand, Command.inWords, Qualifier.inWords, StoreTarget.inWords, plain, path, named v inside]

end Command.ReadsIn

theorem Branch.reads_guard (b : Branch) : b.guard.reads = b.condition.reads := by
  unfold guard
  split <;> rfl

theorem Branch.inWords_guard (b : Branch) : b.guard.inWords = b.condition.inWords := by
  unfold guard
  split <;> rfl

theorem Item.readsIn_splice (vs : List Variable) {anchor : Entity} (plain : Text.isName anchor.tag)
    (window : Window) : ∀ c ∈ Item.commands (.splice anchor window), c.ReadsIn vs := by
  have copies {c : Command} (told : c.isTold) (none : c.reads = []) (words : c.inWords) : c.ReadsIn vs :=
    ⟨told, fun v mem => (nomatch (none ▸ mem : v ∈ [])), fun _ => words⟩
  intro c mem
  simp only [commands, spliceCommands, List.mem_append, List.mem_cons, List.not_mem_nil, or_false,
    List.mem_replicate] at mem
  obtain ((rfl | rfl) | ⟨-, rfl⟩) | rfl := mem
  · exact copies rfl rfl (by simp [copyToBuffer, Command.inWords, Qualifier.inWords, plain])
  · exact copies rfl rfl rfl
  · exact copies rfl rfl rfl
  · exact copies rfl rfl rfl

theorem Chain.Relocates.readsIn {chain : Chain} {splicer : Splicer} {window : Window}
    {before after : List Command} {position : Vector3} {vs : List Variable}
    (h : chain.Relocates splicer window before position after) (plain : Text.isName splicer.cloner.tag)
    (first : ∀ c ∈ before, c.ReadsIn vs)
    (axes : ∀ v ∈ [position.x, position.y, position.z], v ∈ vs) (last : ∀ c ∈ after, c.ReadsIn vs) :
    ∀ c ∈ chain.commands, c.ReadsIn vs := by
  obtain ⟨rest, ks, emits, commands⟩ := h
  simp only [List.forall_mem_cons] at axes
  obtain ⟨x, y, z, -⟩ := axes
  rw [commands, Splicer.commands_executeAt emits]
  refine List.forall_mem_append.2 ⟨first, List.forall_mem_append.2 ⟨List.forall_mem_append.2 ⟨?_,
    Item.readsIn_splice vs plain window⟩, last⟩⟩
  simp only [List.forall_mem_cons]
  exact ⟨.storeCommand x plain _, .storeCommand y plain _, .storeCommand z plain _, List.forall_mem_nil _⟩

theorem ChainGroup.HasRows.exists_row {label : String} {rows : List (String × EmitM Unit)} {g : ChainGroup}
    (h : g.HasRows label rows) {chain : Chain} (mem : chain ∈ g.chains) :
    ∃ row ∈ rows, CapturedFrom row.2 chain.commands := by
  obtain ⟨i, here⟩ := List.mem_iff_getElem?.1 mem
  obtain ⟨row, found, isRow⟩ := Machine.exists_of_forall₂ h.chains here
  exact ⟨row, List.mem_of_getElem? found, isRow.commands⟩

def ChainGroup.ReadsIn (vs : List Variable) (g : ChainGroup) : Prop :=
  ∀ chain ∈ g.chains, ∀ c ∈ chain.commands, c.ReadsIn vs

namespace Machine

variable {vs : List Variable}

namespace Memory

/-- What a memory can do with these scores: its own ones and the constants are among them. -/
structure WorksIn (vs : List Variable) (ks : List Int32) : Prop where
  own : ∀ v ∈ scratch, v ∈ vs
  known : ∀ k ∈ ks, constantNamed k ∈ vs

variable {ks : List Int32} {head : Entity} {index v : Variable}

theorem WorksIn.mono (h : WorksIn vs ks) {ls : List Int32} (subset : ls ⊆ ks) : WorksIn vs ls :=
  ⟨h.own, fun k mem => h.known k (subset mem)⟩

theorem readsIn_seek (h : WorksIn vs seekConstants) (plain : Text.isName head.tag) (first : index ∈ vs) :
    ∀ c ∈ (standard head).seekCommands index, c.ReadsIn vs := by
  have x : (standardVector "mem_index").x ∈ vs := h.own _ (by decide)
  have y : (standardVector "mem_index").y ∈ vs := h.own _ (by decide)
  have z : (standardVector "mem_index").z ∈ vs := h.own _ (by decide)
  have page := h.known 16 (by decide)
  have plane := h.known 256 (by decide)
  simp only [seekCommands, standard, List.forall_mem_cons]
  exact ⟨.operateScore x _ first, .operateScore x _ page, .operateScore y _ first, .operateScore y _ page,
    .operateScore y _ page, .operateScore z _ first, .operateScore z _ plane, .operateScore z _ page,
    .addCommand y _, .storeCommand x plain _, .storeCommand y plain _, .storeCommand z plain _,
    List.forall_mem_nil _⟩

theorem readsIn_load (h : WorksIn vs loadConstants) (plain : Text.isName head.tag) (first : index ∈ vs)
    (second : v ∈ vs) :
    ∀ c ∈ (standard head).loadCommands index v, c.ReadsIn vs := by
  have high : (⟨"mem_high"⟩ : Variable) ∈ vs := h.own _ (by decide)
  have low : (⟨"mem_low"⟩ : Variable) ∈ vs := h.own _ (by decide)
  have read {u : Variable} (inside : u ∈ vs) (slot : Nat) : ((standard head).readCommand u slot).ReadsIn vs := by
    refine ⟨rfl, List.forall_mem_nil _, fun named => ?_⟩
    simp [readCommand, standard, Command.inWords, Qualifier.inWords, StoreTarget.inWords, plain, named u inside]
  refine List.forall_mem_append.2 ⟨readsIn_seek (h.mono (List.subset_append_left _ _)) plain first, ?_⟩
  simp only [standard, List.forall_mem_cons]
  exact ⟨read high 0, read low 1, .operateScore second _ high, .addCommand second _,
    .operateScore second _ (h.known 64 (by decide)), .operateScore second _ low, .addCommand second _,
    List.forall_mem_nil _⟩

theorem readsIn_store (h : WorksIn vs storeConstants) (plain : Text.isName head.tag) (first : index ∈ vs)
    (second : v ∈ vs) :
    ∀ c ∈ (standard head).storeCommands index v, c.ReadsIn vs := by
  have high : (⟨"mem_high"⟩ : Variable) ∈ vs := h.own _ (by decide)
  have low : (⟨"mem_low"⟩ : Variable) ∈ vs := h.own _ (by decide)
  have word := h.known 4096 (by decide)
  have half := h.known 64 (by decide)
  have write {u : Variable} (inside : u ∈ vs) (slot : Nat) :
      ((standard head).writeCommand u slot).ReadsIn vs := by
    refine ⟨rfl, List.forall_mem_singleton.2 inside, fun named => ?_⟩
    have path := (headSlot slot).isName_path
    simp [writeCommand, standard, Command.inWords, Qualifier.inWords, StoreTarget.inWords, StoreTarget.slot, plain,
      path, named u inside]
  have counted : ∀ c ∈ (standard head).countCommands v, c.ReadsIn vs := by
    simp only [countCommands, standard, List.forall_mem_cons]
    exact ⟨.operateScore high _ second, .operateScore high _ word, .operateScore low _ high,
      .operateScore low _ half, .addCommand low _, .operateScore high _ half, .addCommand high _,
      List.forall_mem_nil _⟩
  refine List.forall_mem_append.2 ⟨List.forall_mem_append.2 ⟨counted,
    readsIn_seek (h.mono (List.subset_append_right _ _)) plain first⟩, ?_⟩
  exact List.forall_mem_cons.2 ⟨write high 0, List.forall_mem_singleton.2 (write low 1)⟩

end Memory

theorem forall_mem_pair {p : Variable → Prop} {u v : Variable} : (∀ w ∈ [u, v], p w) ↔ p u ∧ p v := by
  simp

namespace Deed

def reads : Deed → List Variable
  | .operate target op source =>
    target :: (sourceReads source ++ (Variable.operateConstants op source).map constantNamed)
  | .memory access => access.operands ++ (Memory.scratch ++ access.constants.map constantNamed)
  | .announce v => [v]

theorem readsIn_operate {target : Variable} {op : ScoreOp} {source : Source}
    (inside : ∀ v ∈ (operate target op source).reads, v ∈ vs) : (target.operateCommand op source).ReadsIn vs := by
  obtain ⟨own, others⟩ := List.forall_mem_cons.1 inside
  obtain ⟨reads, known⟩ := List.forall_mem_append.1 others
  cases source with
  | «variable» u => exact .operateScore own op (reads u List.mem_cons_self)
  | literal k =>
    have constant (mem : k ∈ Variable.operateConstants op (.literal k)) : constantNamed k ∈ vs :=
      known _ (List.mem_map_of_mem mem)
    cases op with
    | set => exact .setScore own k
    | add | sub => exact .addCommand own _
    | mul | div | mod | min | max | swap => exact .operateScore own _ (constant List.mem_cons_self)

theorem readsIn_commands {head : Entity} (plain : Text.isName head.tag) {d : Deed}
    (inside : ∀ v ∈ d.reads, v ∈ vs) :
    ∀ c ∈ d.commands head, c.ReadsIn vs := by
  cases d with
  | operate target op source => exact List.forall_mem_singleton.2 (readsIn_operate inside)
  | memory access =>
    obtain ⟨operands, others⟩ := List.forall_mem_append.1 inside
    obtain ⟨own, known⟩ := List.forall_mem_append.1 others
    have works : Memory.WorksIn vs access.constants := ⟨own, List.forall_mem_map.1 known⟩
    cases access with
    | load index target =>
      obtain ⟨first, second⟩ := forall_mem_pair.1 operands
      exact Memory.readsIn_load works plain first second
    | store index source =>
      obtain ⟨first, second⟩ := forall_mem_pair.1 operands
      exact Memory.readsIn_store works plain first second
    | push pointer source =>
      obtain ⟨first, second⟩ := forall_mem_pair.1 operands
      exact List.forall_mem_append.2 ⟨Memory.readsIn_store works plain first second,
        List.forall_mem_singleton.2 (.addCommand first _)⟩
    | pop pointer target =>
      obtain ⟨first, second⟩ := forall_mem_pair.1 operands
      exact List.forall_mem_cons.2 ⟨.addCommand first _, Memory.readsIn_load works plain first second⟩
  | announce v =>
    have own := inside v List.mem_cons_self
    exact List.forall_mem_singleton.2 ⟨rfl, inside, fun named => named v own⟩

end Deed

def Computer.IsNamed (c : Computer) : Prop :=
  ∀ e ∈ c.helpers, Text.isName e.tag

theorem Test.inWords_branch (t : Test) (named : AreNamed t.reads) : t.branch.guard.inWords := by
  rw [Branch.inWords_guard]
  obtain ⟨left, relation, right, negated⟩ := t
  have own : Text.isName left.name := named left List.mem_cons_self
  cases right with
  | literal k => exact own
  | «variable» u =>
    have other : Text.isName u.name := named u (List.mem_cons_of_mem _ (List.mem_singleton_self u))
    exact Bool.and_eq_true_iff.2 ⟨own, other⟩

namespace Stage

def reads : Stage → List Variable
  | .always d => d.reads
  | .guarded t d => t.reads ++ d.reads
  | .transfer _ index => [index]

theorem readsIn_items {c : Computer} (plain : c.IsNamed) {stage : Stage} (inside : ∀ v ∈ stage.reads, v ∈ vs) :
    ∀ d ∈ units (stage.items c), d.ReadsIn vs := by
  cases stage with
  | always d =>
    rw [items, units_map_unit]
    exact d.readsIn_commands (plain c.memory.head (by simp [Computer.helpers])) inside
  | guarded t d =>
    obtain ⟨tested, read⟩ := List.forall_mem_append.1 inside
    rw [items, units_map_unit]
    refine List.forall_mem_map.2 fun command mem => ?_
    refine (d.readsIn_commands (plain c.memory.head (by simp [Computer.helpers])) read command mem).guarded
      (fun v mem => tested v (t.reads_branch v (t.branch.reads_guard ▸ mem))) fun named => ?_
    exact t.inWords_branch fun v mem => named v (tested v mem)
  | transfer kind index =>
    have index := inside index (List.mem_singleton_self _)
    have fetcher := plain c.bank.fetcher (by simp [Computer.helpers])
    simp only [items, Bank.accessItems, units_cons, units_nil, List.append_nil]
    refine List.forall_mem_append.2 ⟨List.forall_mem_singleton.2 ⟨rfl, List.forall_mem_nil _, fun _ => fetcher⟩,
      List.forall_mem_append.2 ⟨List.forall_mem_singleton.2 (.storeCommand index fetcher _),
        Item.readsIn_splice vs fetcher _⟩⟩

theorem readsIn_units {c : Computer} (plain : c.IsNamed) {stages : List Stage}
    (inside : ∀ stage ∈ stages, ∀ v ∈ stage.reads, v ∈ vs) :
    ∀ d ∈ units (stages.flatMap (items c)), d.ReadsIn vs := by
  induction stages with
  | nil => exact List.forall_mem_nil _
  | cons stage stages ih =>
    obtain ⟨first, others⟩ := List.forall_mem_cons.1 inside
    rw [List.flatMap_cons, units_append]
    exact List.forall_mem_append.2 ⟨readsIn_items plain first, ih others⟩

end Stage

def TableReads (vs : List Variable) (table : List (String × List Stage)) : Prop :=
  ∀ entry ∈ table, ∀ stage ∈ entry.2, ∀ v ∈ stage.reads, v ∈ vs

instance (vs : List Variable) (table : List (String × List Stage)) : Decidable (TableReads vs table) :=
  inferInstanceAs (Decidable (∀ entry ∈ table, ∀ stage ∈ entry.2, ∀ v ∈ stage.reads, v ∈ vs))

def machineVariables : List Variable :=
  machineNames.map Variable.mk ++ machineConstants.map constantNamed

theorem tableReads_arithmeticRows : TableReads machineVariables arithmeticRows := by
  decide +kernel

theorem tableReads_jumpRows : TableReads machineVariables jumpRows := by
  decide +kernel

theorem tableReads_constantRows : TableReads machineVariables constantRows := by
  decide +kernel

theorem tableReads_printRows (values : List Variable) :
    TableReads (values ++ machineVariables) (printRows values) := by
  have argument : ⟨"card_arg"⟩ ∈ machineVariables := by decide +kernel
  have register : ⟨"reg_src"⟩ ∈ machineVariables := by decide +kernel
  refine List.forall_mem_map.2 fun value mem => ?_
  have own : value ∈ values ++ machineVariables := List.mem_append_left _ mem
  simp only [printStages, readStages, List.cons_append, List.nil_append, List.forall_mem_cons, Stage.reads,
    Deed.reads, sourceReads, Variable.operateConstants, List.map_nil, List.append_nil]
  exact ⟨⟨List.mem_append_right _ argument, List.forall_mem_nil _⟩,
    ⟨own, List.mem_append_right _ register, List.forall_mem_nil _⟩, ⟨own, List.forall_mem_nil _⟩,
    List.forall_mem_nil _⟩

theorem readsIn_positions : ∀ name ∈ ["arith_target", "jump_position", "const_position", "card_position",
    "dispatch_position"], ∀ v ∈ [(standardVector name).x, (standardVector name).y, (standardVector name).z],
      v ∈ machineVariables := by
  decide +kernel

theorem readsIn_transfers (kind : BankAccess) :
    ∀ v ∈ kind.registers, (kind.command v).ReadsIn machineVariables := by
  cases kind <;> decide +kernel

theorem readsIn_fetch {head : Entity} (plain : Text.isName head.tag) :
    ∀ c ∈ fetch head, c.ReadsIn machineVariables := by
  have first : ⟨"ip"⟩ ∈ machineVariables := by decide +kernel
  have second : ⟨"opcode"⟩ ∈ machineVariables := by decide +kernel
  have known : ∀ v ∈ Memory.loadConstants.map constantNamed, v ∈ machineVariables := by decide +kernel
  exact Memory.readsIn_load ⟨by decide +kernel, List.forall_mem_map.1 known⟩ plain first second

section chains

variable {c : Computer} {label : String} {dispatch : Window → EmitM Unit} {rows : List (String × EmitM Unit)}
  {table : List (String × List Stage)} {g : ChainGroup} {chain : Chain}

theorem readsIn_row (plain : c.IsNamed) (emits : EmitsRows c rows table) (inside : TableReads vs table)
    {row : String × EmitM Unit} (mem : row ∈ rows) (captured : CapturedFrom row.2 chain.commands) :
    ∀ d ∈ chain.commands, d.ReadsIn vs := by
  obtain ⟨i, here⟩ := List.mem_iff_getElem?.1 mem
  obtain ⟨entry, found, -, emitted⟩ := exists_of_forall₂ emits.flip here
  rw [emitted.emits.of_capturedFrom captured]
  exact Stage.readsIn_units plain (inside entry (List.mem_of_getElem? found))

theorem Dispatches.readsIn (h : Dispatches label dispatch rows g) (plain : c.IsNamed)
    (emits : EmitsRows c rows table) (inside : TableReads vs table) {select : List Command} {position : Vector3}
    (relocates : ∀ window (chain : Chain), CapturedFrom (dispatch window) chain.commands →
      chain.Relocates c.splicer window select position [])
    (selects : ∀ d ∈ select, d.ReadsIn vs) (axes : ∀ v ∈ [position.x, position.y, position.z], v ∈ vs) :
    g.ReadsIn vs := by
  obtain ⟨window, hasRows, -⟩ := h
  intro chain mem
  obtain ⟨row, inRows, captured⟩ := hasRows.exists_row mem
  rcases List.mem_cons.1 inRows with rfl | inRows
  · have cloner := plain c.splicer.cloner (by simp [Computer.helpers])
    exact (relocates window chain captured).readsIn cloner selects axes (List.forall_mem_nil _)
  · exact readsIn_row plain emits inside inRows captured

end chains

namespace Parts.IsStandard

variable {p : Parts} {values : List Variable} {head cloner fetcher : Entity}
  (standard : p.IsStandard (values.map printCard) head cloner fetcher)
  (plain : (Computer.standard head cloner fetcher).IsNamed)

include standard

theorem readsIn_bank : p.bank.ReadsIn machineVariables := by
  have registers : p.computer.registers = .standard := congrArg Computer.registers standard.computer
  have emits : ∀ row ∈ Bank.rows Registers.standard, ∃ kind : BankAccess,
      Emits row.2 () (kind.registers.map kind.command) [] := by
    simp only [Bank.rows, List.forall_mem_cons]
    exact ⟨⟨.loadGeneral, .forM_single (fun v => .assign _ v) _⟩,
      ⟨.storeGeneral, .forM_single (fun v => .assign v _) _⟩,
      ⟨.loadScratch, .forM_single (fun v => .assign _ v) _⟩,
      ⟨.storeScratch, .forM_single (fun v => .assign v _) _⟩, List.forall_mem_nil _⟩
  intro chain mem
  obtain ⟨row, inRows, captured⟩ := standard.bank.exists_row mem
  obtain ⟨kind, emitted⟩ := emits row (registers ▸ inRows)
  rw [emitted.of_capturedFrom captured]
  exact List.forall_mem_map.2 (readsIn_transfers kind)

include plain

theorem readsIn_primary : ∀ c ∈ p.primary.commands, c.ReadsIn machineVariables := by
  obtain ⟨headPlain, clonerPlain, -⟩ := by simpa only [Computer.IsNamed, Computer.helpers, List.forall_mem_cons]
    using plain
  have decoding : ∀ c ∈ decode, c.ReadsIn machineVariables := by decide +kernel
  have advancing : ∀ c ∈ advance, c.ReadsIn machineVariables := by decide +kernel
  obtain ⟨window, primary⟩ := standard.primary
  have captured := primary.commands
  rw [standard.computer] at captured
  exact (relocates_primary captured).readsIn clonerPlain
    (List.forall_mem_append.2 ⟨readsIn_fetch headPlain, decoding⟩)
    (readsIn_positions _ (by decide)) advancing

theorem readsIn_instructions :
    ∀ g ∈ [p.arithmetic, p.jump, p.constant], g.ReadsIn machineVariables := by
  have arithmetic := standard.arithmetic
  have jump := standard.jump
  have constant := standard.constant
  rw [standard.computer] at arithmetic jump constant
  simp only [List.forall_mem_cons]
  exact ⟨arithmetic.readsIn plain emitsRows_arithmetic tableReads_arithmeticRows
      (fun _ _ captured => relocates_arithmetic captured) (by decide +kernel) (readsIn_positions _ (by decide)),
    jump.readsIn plain emitsRows_jump tableReads_jumpRows (fun _ _ captured => relocates_jump captured)
      (by decide +kernel) (readsIn_positions _ (by decide)),
    constant.readsIn plain emitsRows_constant tableReads_constantRows
      (fun _ _ captured => relocates_constant captured) (by decide +kernel) (readsIn_positions _ (by decide)),
    List.forall_mem_nil _⟩

theorem readsIn_card : p.card.ReadsIn (values ++ machineVariables) := by
  have wider : machineVariables ⊆ values ++ machineVariables := List.subset_append_right _ _
  have selects : ∀ c ∈ cardSelect, c.ReadsIn machineVariables := by decide +kernel
  have idle : ∀ c ∈ cardArgumentSelect, c.ReadsIn machineVariables := by decide +kernel
  have card := standard.card.2
  rw [standard.computer] at card
  rcases card with dispatches | ⟨hasRows, -⟩
  · exact dispatches.readsIn plain (emitsRows_print values) (tableReads_printRows values)
      (fun _ _ captured => relocates_card captured) (fun c mem => (selects c mem).mono wider)
      fun v mem => wider (readsIn_positions _ (by decide) v mem)
  · intro chain mem
    obtain ⟨row, inRows, captured⟩ := hasRows.exists_row mem
    rcases List.mem_cons.1 inRows with rfl | inRows
    · rw [emits_cardDispatch_none.of_capturedFrom captured]
      exact fun c mem => (idle c mem).mono wider
    · exact readsIn_row plain (emitsRows_print values) (tableReads_printRows values) inRows captured

/-- Behind the initialization all chains read variables of the machine, constants and values of cards. -/
theorem readsIn_floors {y : Int} {g : ChainGroup} (floor : (y, g) ∈ p.floors) :
    ∀ chain ∈ g.chains, chain = initChain p.init ∨
      ∀ c ∈ chain.commands, c.ReadsIn (values ++ machineVariables) := by
  have wider : machineVariables ⊆ values ++ machineVariables := List.subset_append_right _ _
  have fixed {g : ChainGroup} (reads : g.ReadsIn machineVariables) (chain : Chain) (mem : chain ∈ g.chains) :
      chain = initChain p.init ∨ ∀ c ∈ chain.commands, c.ReadsIn (values ++ machineVariables) :=
    .inr fun c inside => (reads chain mem c inside).mono wider
  obtain ⟨arithmetic, jump, constant, -⟩ := by
    simpa only [List.forall_mem_cons] using standard.readsIn_instructions plain
  simp only [Parts.floors, List.mem_cons, Prod.mk.injEq, List.not_mem_nil, or_false] at floor
  rcases floor with ⟨-, rfl⟩ | ⟨-, rfl⟩ | ⟨-, rfl⟩ | ⟨-, rfl⟩ | ⟨-, rfl⟩ | ⟨-, rfl⟩
  · refine List.forall_mem_cons.2 ⟨.inl rfl, List.forall_mem_singleton.2 (.inr fun c inside => ?_)⟩
    exact (standard.readsIn_primary plain c inside).mono wider
  · exact fixed arithmetic
  · exact fixed jump
  · exact fixed constant
  · exact fun chain mem => .inr (standard.readsIn_card plain chain mem)
  · exact fixed standard.readsIn_bank

end Parts.IsStandard

theorem Initializes.isTold {c : Command} (h : Initializes c) : c.isTold := by
  cases h <;> rfl

theorem Initializes.reads_eq_nil {c : Command} (h : Initializes c) : c.reads = [] := by
  cases h <;> rfl

end Machine

end BlockComputer
