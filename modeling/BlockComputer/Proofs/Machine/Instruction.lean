import BlockComputer.Proofs.Machine.Arithmetic

/-!
The rows of the arithmetic group, as they stand in the listing, do what they mean.

A row runs with the unit of the register bank that a register number selects in the place of each access.
It changes the registers, the flags and the memory as its meaning says, and beside that only the
workspace.
-/

namespace BlockComputer

namespace Machine

theorem arithmeticRows_reserved : ∀ row ∈ arithmeticRows, row.1 = "reserved" → row.2 = [] := by
  decide

namespace Ground

variable {G : Ground}

/-- The stages of a row run to one end, in every world that shows a state. -/
theorem Shows.runs_stages {w : World} {s : State} (h : G.Shows w s) {stages : List Stage}
    (safe : ∀ stage ∈ stages, stage.IsSafe) (p : Site) :
    ∃ w', (∀ v, RunsInPlace territory p (stages.flatMap (Stage.items G.parts.computer)) w v ↔ v = w') ∧
      G.Shows w' (effects stages s) := by
  obtain ⟨w', ran, shows⟩ := (G.leads_stages safe s).runs h p
  have small : ∀ item ∈ stages.flatMap (Stage.items G.parts.computer), item.FitsIn 1 :=
    List.forall_mem_flatMap.2 fun stage _ => stage.fitsIn _
  refine ⟨w', fun v => ⟨fun other => other.unique small ran, ?_⟩, shows⟩
  rintro rfl
  exact ran

end Ground

/-- Each row of the arithmetic group stands at its place and does what it means, with any two registers
as its destination and source; nothing but the workspace can tell the difference. -/
theorem arithmetic_rows_mean (G : Ground) {i : Nat} {name : String}
    {meaning : Fin 8 → Fin 8 → State → State} (here : arithmeticMeanings[i]? = some (name, meaning)) :
    ∃ chain items, G.parts.HasChain G.listing chain ⟨0, 1, (i + 1 : Nat)⟩ ∧
      chain.label = rowLabel "arithmetic" name ∧ chain.commands = units items ∧
      ∀ (w : World) (s : State) (d r : Fin 8) (p : Site), G.Shows w s →
        s.scores ⟨"arith_dst"⟩ = Int32.ofNat d → s.scores ⟨"arith_src"⟩ = Int32.ofNat r →
        ∃ w' t, (∀ v, RunsInPlace territory p items w v ↔ v = w') ∧ G.Shows w' t ∧
          (meaning d r s).SameBut workspace t ∧ (name = "reserved" → w' = w) := by
  have group := G.standard.arithmetic
  rw [G.computer_eq] at group
  obtain ⟨window, -, lists, -⟩ := G.exists_lists 0 (by decide) group
    (G.computer_eq ▸ emitsRows_arithmetic) isSafe_arithmeticRows
  obtain ⟨entry, listed, related⟩ := exists_of_forall₂ means_arithmeticRows here
  obtain ⟨named, means⟩ : entry.1 = name ∧ Means entry.2 meaning := related
  obtain ⟨chain, has, isEntry, -⟩ := lists.exists_chain listed
  have inTable := List.mem_of_getElem? listed
  refine ⟨chain, _, has, named ▸ isEntry.label_eq, isEntry.commands,
    fun w s d r p shows dst src => ?_⟩
  obtain ⟨w', only, after⟩ := shows.runs_stages (lists.safe entry inTable) p
  refine ⟨w', _, only, after, means s d r dst src, fun reserved => ?_⟩
  rw [arithmeticRows_reserved entry inTable (named.trans reserved)] at only
  exact ((only w).1 .nil).symm

def splitState : State :=
  Ground.stateOf [(⟨"arith_dst"⟩, 2), (⟨"arith_src"⟩, 2), (⟨"a2"⟩, -1000)]

theorem arithmetic_rows_mean_split :
    ∃ (G : Ground) (w w' : World) (chain : Chain) (items : List Item),
      (∃ meaning, arithmeticMeanings[8]? = some ("split", meaning)) ∧ G.Shows w splitState ∧
      splitState.scores ⟨"arith_dst"⟩ = Int32.ofNat 2 ∧
      splitState.scores ⟨"arith_src"⟩ = Int32.ofNat 2 ∧
      chain.label = "arithmetic/split" ∧ chain.commands = units items ∧
      RunsInPlace territory ⟨0, 0, 0⟩ items w w' ∧ w'.score (generalRegister 2) = -2 := by
  obtain ⟨G, -, constants⟩ := Ground.exists_bare
  have shows : G.Shows (G.picture splitState) splitState :=
    Ground.shows_stateOf constants (by decide) (by decide) rfl
  obtain ⟨chain, items, -, labelled, commands, runs⟩ := arithmetic_rows_mean G (i := 8) rfl
  obtain ⟨w', t, only, shows', same, -⟩ :=
    runs _ splitState 2 2 ⟨0, 0, 0⟩ shows (by decide) (by decide)
  refine ⟨G, _, w', chain, items, ⟨_, rfl⟩, shows, by decide, by decide, labelled, commands,
    (only w').2 rfl, ?_⟩
  rw [shows'.scores _ (by decide), same.scores _ (by decide)]
  decide

end Machine

end BlockComputer
