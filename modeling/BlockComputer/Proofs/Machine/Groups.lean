import BlockComputer.Proofs.Machine.Parts
import BlockComputer.Proofs.Relocation.Windows

/-!
The groups of a machine: which body each of their chains was captured from.

Row zero of an instruction group is its dispatch chain. The window of its relocation is wide enough for
every other row.
-/

namespace BlockComputer

structure ChainGroup.HasRows (label : String) (rows : List (String × EmitM Unit)) (g : ChainGroup) :
    Prop where
  onlyChain : g.onlyChain = true
  chains : List.Forall₂ (Chain.IsRow label true) rows g.chains

namespace Ensures

theorem hasRows (label : String) (rows : List (String × EmitM Unit)) :
    Ensures (ChainGroup.addRows { label, onlyChain := true } rows) fun g =>
      g.label = label ∧ g.HasRows label rows := by
  refine (addRows _ rows).mono ?_
  rintro _ ⟨chains, rfl, areRows⟩
  exact ⟨rfl, rfl, areRows⟩

theorem prepend {label : String} {rows : List (String × EmitM Unit)} {g : ChainGroup}
    (h : g.HasRows label rows) {name : String} (named : name = rowLabel label "dispatch")
    (body : EmitM Unit) :
    Ensures (do return g.prepend (← BlockComputer.captureChain name true body)) fun g' =>
      g'.HasRows label (("dispatch", body) :: rows) ∧ g'.chains.tail = g.chains := by
  refine .bind (captureChain _ _ _) fun chain ⟨labelled, only, captured⟩ => .pure ?_
  exact ⟨⟨h.onlyChain, .cons ⟨labelled.trans named, only, captured⟩ h.chains⟩, rfl⟩

end Ensures

namespace Machine

/-- The rows behind a dispatch chain whose relocation covers them. -/
def Dispatches (label : String) (dispatch : Window → EmitM Unit) (rows : List (String × EmitM Unit))
    (g : ChainGroup) : Prop :=
  ∃ window : Window, g.HasRows label (("dispatch", dispatch window) :: rows) ∧
    window.Covers g.chains.tail

theorem ensures_dispatches {σ : Type} {create : EmitM σ} {standard : σ}
    (returns : Ensures create (· = standard)) (rows : σ → List (String × EmitM Unit))
    (dispatch : σ → Window → EmitM Unit) {label name : String}
    (named : name = rowLabel label "dispatch") :
    Ensures (do
      let scores ← create
      let group ← ChainGroup.addRows { label, onlyChain := true } (rows scores)
      let window ← (liftM (Window.ofGroup group) : EmitM Window)
      return group.prepend (← captureChain name true (dispatch scores window))) <|
      Dispatches label (dispatch standard) (rows standard) := by
  refine .bind returns fun _ scores => ?_
  subst scores
  refine .bind (.hasRows _ _) fun g ⟨_, areRows⟩ => ?_
  refine .bind (.lift _) fun window covered => ?_
  refine (Ensures.prepend areRows named _).mono fun g' ⟨areRows', tail⟩ => ⟨window, areRows', ?_⟩
  rw [tail]
  exact Window.covers_of_ofGroup covered

namespace Computer

variable (c : Computer)

theorem ensures_arithmeticGroup :
    Ensures c.arithmeticGroup <| Dispatches "arithmetic" (c.arithmeticDispatch .standard)
      (c.binaryRows .standard ++ c.unaryRows .standard) :=
  ensures_dispatches ArithmeticScores.declares.returns
    (fun scores => c.binaryRows scores ++ c.unaryRows scores) c.arithmeticDispatch rfl

theorem ensures_jumpGroup :
    Ensures c.jumpGroup <| Dispatches "jump" (c.jumpDispatch .standard) (c.jumpRows .standard) :=
  ensures_dispatches JumpScores.declares.returns c.jumpRows c.jumpDispatch rfl

theorem ensures_constantGroup :
    Ensures c.constantGroup <|
      Dispatches "constant" (c.constantDispatch .standard) (c.constantRows .standard) :=
  ensures_dispatches ConstantScores.declares.returns c.constantRows c.constantDispatch rfl

def cardRows (cards : List (Card Id)) : List (String × EmitM Unit) :=
  cards.map fun card => (card.name, card.generate c)

/-- Cards are dispatched like instructions if any of their chains has a command. -/
def DispatchesCards (cards : List (Card Id)) (g : ChainGroup) : Prop :=
  cards.length ≤ cardSlots ∧
    (Dispatches "card" (fun window => c.cardDispatch (standardVector "card_position") (some window))
        (c.cardRows cards) g ∨
      g.HasRows "card" (("dispatch", c.cardDispatch (standardVector "card_position") none) ::
          c.cardRows cards) ∧
        ∀ chain ∈ g.chains.tail, chain.commands = [])

theorem ensures_cardGroup (cards : List (Card Id)) :
    Ensures (c.cardGroup cards) (c.DispatchesCards cards) := by
  unfold cardGroup
  by_cases many : cardSlots < cards.length
  · simp only [many, if_true]
    intro s g s' made
    obtain ⟨_, _, rejected, -⟩ := perform_bind_eq_ok made
    cases rejected
  · simp only [many, if_false]
    refine .bind (Vector3.declares _ _).returns fun _ position => ?_
    subst position
    refine .bind (.hasRows "card" (c.cardRows cards)) fun g ⟨label, rows⟩ => ?_
    by_cases busy : g.chains.any (!·.commands.isEmpty) = true
    · simp only [busy, if_true]
      refine .bind (P := fun window? => ∃ window, window? = some window ∧
        Window.ofGroup g = .ok window) (.map (.lift _) fun window made => ⟨window, rfl, made⟩) ?_
      rintro _ ⟨window, rfl, covered⟩
      refine (Ensures.prepend rows rfl _).mono fun g' ⟨rows', tail⟩ =>
        ⟨Nat.le_of_not_lt many, .inl ⟨window, rows', ?_⟩⟩
      rw [tail]
      exact Window.covers_of_ofGroup covered
    · simp only [busy]
      have idle : ∀ chain ∈ g.chains, chain.commands = [] := by simpa using busy
      refine .bind (P := (· = none)) (.pure rfl) ?_
      rintro _ rfl
      refine (Ensures.prepend rows rfl _).mono fun g' ⟨rows', tail⟩ =>
        ⟨Nat.le_of_not_lt many, .inr ⟨rows', ?_⟩⟩
      rwa [tail]

/-- The primary chain runs one cycle, with a window for the dispatch chains of the groups. -/
structure IsPrimary (groups : List ChainGroup) (window : Window) (chain : Chain) : Prop where
  onlyChain : chain.onlyChain = false
  covers : window.Covers (groups.filterMap (·.chains.head?))
  commands : CapturedFrom (c.cycle (standardVector "dispatch_position") window) chain.commands

theorem ensures_primaryChain (groups : List ChainGroup) :
    Ensures (c.primaryChain groups) fun chain => ∃ window, c.IsPrimary groups window chain := by
  refine .bind (.lift _) fun window covered => ?_
  refine .bind (Vector3.declares _ _).returns fun _ position => ?_
  subst position
  refine (Ensures.captureChain _ _ _).mono fun chain ⟨_, only, captured⟩ => ?_
  exact ⟨window, only, Window.covers_of_covering covered, captured⟩

end Computer

structure Parts.IsStandard (p : Parts) (cards : List (Card Id)) (head cloner fetcher : Entity) :
    Prop where
  computer : p.computer = .standard head cloner fetcher
  arithmetic : Dispatches "arithmetic" (p.computer.arithmeticDispatch .standard)
    (p.computer.binaryRows .standard ++ p.computer.unaryRows .standard) p.arithmetic
  jump : Dispatches "jump" (p.computer.jumpDispatch .standard) (p.computer.jumpRows .standard) p.jump
  constant : Dispatches "constant" (p.computer.constantDispatch .standard)
    (p.computer.constantRows .standard) p.constant
  card : p.computer.DispatchesCards cards p.card
  bank : p.bank.HasRows "registers" (Bank.rows p.computer.registers)
  primary : ∃ window,
    p.computer.IsPrimary [p.arithmetic, p.jump, p.constant, p.card] window p.primary

theorem Parts.ensures_make (cards : List (Card Id)) (program : List UInt16) :
    Ensures (make cards program) fun p => ∃ head cloner fetcher,
      p.IsStandard cards head cloner fetcher := by
  refine .bind Computer.ensures_create fun c ⟨head, cloner, fetcher, computer⟩ => ?_
  refine .bind (.any _) fun _ _ => ?_
  refine .bind c.ensures_arithmeticGroup fun _ arithmetic => ?_
  refine .bind c.ensures_jumpGroup fun _ jump => ?_
  refine .bind c.ensures_constantGroup fun _ constant => ?_
  refine .bind (c.ensures_cardGroup cards) fun _ card => ?_
  refine .bind (.hasRows _ _) fun _ ⟨_, bank⟩ => ?_
  refine .bind (c.ensures_primaryChain _) fun _ primary => ?_
  refine .bind (.any _) fun _ _ => .pure ?_
  exact ⟨head, cloner, fetcher, computer, arithmetic, jump, constant, card, bank, primary⟩

end Machine

end BlockComputer
