import BlockComputer.Proofs.Machine.Ground

/-!
The register bank in the world.

The bank has a row of transfer commands for each kind of access, one command for each register. An access
runs the command at the place that the score of a register number names; most numbers name a place
without a command, and then nothing happens.
-/

namespace BlockComputer

theorem Emits.forM_single {α : Type} {f : α → EmitM Unit} {g : α → Command}
    (each : ∀ a, Emits (f a) () [g a] []) (as : List α) : Emits (as.forM f) () (as.map g) [] := by
  induction as with
  | nil => exact .pure ()
  | cons a as ih => exact (each a).seq ih

namespace Machine

namespace BankAccess

def registers : BankAccess → List Variable
  | .loadGeneral | .storeGeneral => Registers.standard.general
  | .loadScratch | .storeScratch => Registers.standard.scratch

def target (kind : BankAccess) (register : Variable) : Variable :=
  match kind with
  | .loadGeneral | .loadScratch => Registers.standard.bankRead
  | .storeGeneral | .storeScratch => register

def source (kind : BankAccess) (register : Variable) : Variable :=
  match kind with
  | .loadGeneral | .loadScratch => register
  | .storeGeneral | .storeScratch => Registers.standard.bankWrite

def command (kind : BankAccess) (register : Variable) : Command :=
  .operateScore (kind.target register) .set (kind.source register)

def register? (kind : BankAccess) (n : Int32) : Option Variable :=
  if 0 ≤ n.toInt then kind.registers[n.toInt.toNat]? else none

theorem mem_registers (kind : BankAccess) {n : Int32} {v : Variable}
    (number : kind.register? n = some v) : v ∈ kind.registers := by
  rw [register?] at number
  split at number
  · exact List.mem_of_getElem? number
  · cases number

theorem isLoose_target (kind : BankAccess) {v : Variable} (mem : v ∈ kind.registers) :
    Variable.IsLoose (kind.target v) ∧ kind.target v ∉ Memory.scratch ∧
      kind.source v ∉ Memory.scratch := by
  revert v
  cases kind <;> decide

theorem emits_row (kind : BankAccess) : ∃ (i : Nat) (row : String × EmitM Unit),
    kind.row.toInt = i ∧ (Bank.rows Registers.standard)[i]? = some row ∧
      Emits row.2 () (kind.registers.map kind.command) [] := by
  cases kind with
  | loadGeneral => exact ⟨0, _, rfl, rfl, .forM_single (fun v => .assign _ v) _⟩
  | storeGeneral => exact ⟨1, _, rfl, rfl, .forM_single (fun v => .assign v _) _⟩
  | loadScratch => exact ⟨2, _, rfl, rfl, .forM_single (fun v => .assign _ v) _⟩
  | storeScratch => exact ⟨3, _, rfl, rfl, .forM_single (fun v => .assign v _) _⟩

end BankAccess

/-- What an access with a register number does to a state. -/
def State.transfer (s : State) (kind : BankAccess) (n : Int32) : State :=
  match kind.register? n with
  | none => s
  | some v => s.setScore (kind.target v) (s.scores (kind.source v))

namespace Ground

variable {G : Ground} {w : World} {s : State}

theorem exists_bankChain (G : Ground) (kind : BankAccess) : ∃ chain : Chain,
    chain.commands = kind.registers.map kind.command ∧ chain.onlyChain = true ∧
      StandsAt G.parts.groups chain ⟨0, 6, kind.row.toInt⟩ := by
  obtain ⟨i, row, number, here, emits⟩ := kind.emits_row
  have rows := G.standard.bank
  rw [G.computer_eq] at rows
  obtain ⟨chain, placed, isRow⟩ := rows.row here
  refine ⟨chain, emits.of_capturedFrom isRow.commands, isRow.onlyChain_eq, ?_⟩
  refine ⟨(Layout.registerBank, G.parts.bank), ?_, i, placed, ?_⟩
  · simp [Parts.groups]
  · rw [number]
    simp [Layout.registerBank, Position.absolute, Position.site, Site.south]

theorem blocks_bank (G : Ground) (kind : BankAccess) (n : Int32) :
    (World.ofListing G.listing).blocks ⟨n.toInt, 6, kind.row.toInt⟩ =
      (kind.register? n).map fun v => Block.unit .chain (kind.command v) := by
  obtain ⟨chain, commands, only, stands⟩ := G.exists_bankChain kind
  unfold BankAccess.register?
  by_cases inside : 0 ≤ n.toInt
  · have site : (⟨n.toInt, 6, kind.row.toInt⟩ : Site) =
        Site.shift ⟨0, 6, kind.row.toInt⟩ n.toInt.toNat := by
      simp only [Site.shift, Site.mk.injEq, and_self, and_true]
      omega
    have kindOf (i : Nat) : kindAt chain.firstKind i = .chain := by
      simp [kindAt, Chain.firstKind, only]
    rw [site, World.blocks_ofListing G.laidOut.placed G.parts.atDifferentHeights_groups stands,
      Chain.blockAt?, commands, if_pos inside, List.getElem?_map, Option.map_map, kindOf]
    rfl
  · rw [if_neg inside]
    refine World.blocks_ofListing_eq_none G.laidOut.placed fun other p i at_ same => ?_
    obtain ⟨g, mem, r, -, rfl⟩ := at_
    have west : ∀ g ∈ G.parts.groups, g.1.site.x = 0 := by
      simp [Parts.groups, Layout.mainGroup, Layout.arithmeticGroup, Layout.jumpGroup,
        Layout.constantGroup, Layout.cardGroup, Layout.registerBank, Position.absolute, Position.site]
    have x := congrArg Site.x same
    simp only [Site.shift, Site.south, west g mem] at x
    omega

theorem Shows.sends (h : G.Shows w s) (kind : BankAccess) {index : Variable}
    (apart : index ∉ Memory.scratch) :
    ∃ moved q, G.Shows moved s ∧ moved.locate G.fetcher = some q ∧
      q.site = ⟨(s.scores index).toInt, 6, kind.row.toInt⟩ ∧
      ∀ p rest w', RunsInPlace territory (p.shift 2) rest moved w' →
        RunsInPlace territory p (.unit (.teleport G.fetcher (.absolute 0 6 kind.row)) ::
          .unit (Piece.storeCommand G.fetcher 0 index) :: rest) w w' := by
  have here : (w.locate G.fetcher).isSome := h.isSome_locate (by simp [Computer.helpers, fetcher])
  obtain ⟨q, at_⟩ := Option.isSome_iff_exists.1 here
  let sent := w.moveEntity G.fetcher.tag fun _ => ⟨0, 6, kind.row.toInt⟩
  let moved := sent.moveEntity G.fetcher.tag (·.setAxis 0 (s.scores index).toInt)
  refine ⟨moved, ⟨(s.scores index).toInt, 6, kind.row.toInt⟩, ?_, ?_, Point.site_corner _ 6 _, ?_⟩
  · exact h.of_sameBut (((World.SameBut.moveEntity w _ _).trans
      (World.SameBut.moveEntity _ _ _)).mono (List.nil_subset _))
  · simp [moved, sent, at_, Point.setAxis]
  · intro p rest w' run
    refine .still rfl ?_
    rw [Command.after_teleport here]
    refine .still rfl ?_
    rw [Piece.after_storeCommand (by decide), World.score_moveEntity, h.scores index apart,
      Site.shift_shift]
    exact run

/-- An access to the bank runs to its end, whatever the register number is. -/
theorem Shows.transfer (h : G.Shows w s) (kind : BankAccess) {index : Variable}
    (apart : index ∉ Memory.scratch) (p : Site) :
    ∃ w', RunsInPlace territory p (G.parts.computer.bank.accessItems kind index) w w' ∧
      G.Shows w' (s.transfer kind (s.scores index)) := by
  obtain ⟨moved, q, shows, stands, site, sent⟩ := h.sends kind apart
  have inRows : q.site.row 1 ⊆ territory.rows := by
    rintro _ ⟨i, -, rfl⟩
    simp [territory, site, Site.shift]
  have run (row : List Item) {v : World} (short : (BlockComputer.units row).length ≤ 1)
      (first : (BlockComputer.units row)[0]?.map (Block.unit .chain) =
        (kind.register? (s.scores index)).map fun v => Block.unit .chain (kind.command v))
      (body : RunsInPlace territory ((p.shift 2).shift 2) row moved v) :
      RunsInPlace territory p (G.parts.computer.bank.accessItems kind index) w v := by
    refine sent p _ _ (.splice stands (shows.holdsRow ⟨short, fun i less => ?_⟩ ?_) inRows body .nil)
    · obtain rfl : i = 0 := Nat.lt_one_iff.1 less
      rw [Site.shift_zero, site, G.blocks_bank, first]
    · simp [site]
  unfold State.transfer
  cases found : kind.register? (s.scores index) with
  | none =>
    rw [found] at run
    exact ⟨moved, run [] (Nat.zero_le _) rfl .nil, shows⟩
  | some v =>
    rw [found] at run
    obtain ⟨loose, -, apart⟩ := kind.isLoose_target (kind.mem_registers found)
    refine ⟨_, run [.unit (kind.command v)] (Nat.le_refl _) rfl (.still rfl .nil), ?_⟩
    rw [BankAccess.command, Command.after_operateScore _ _ _ _ (by decide), shows.scores _ apart]
    exact shows.setScore loose _

end Ground

end Machine

end BlockComputer
