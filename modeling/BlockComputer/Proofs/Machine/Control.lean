import BlockComputer.Proofs.Machine.Row
import BlockComputer.Proofs.World.Slicing

/-!
The rows of jumps, of constants and of print cards.

A jump goes to the target that dispatching has computed, and leaves a mark for the end of the cycle; no
other of these rows touches the instruction register or the mark.
-/

namespace BlockComputer

namespace Machine

def jumpDeeds : List Deed :=
  [.operate ⟨"ip"⟩ .set (.variable ⟨"jump_target"⟩), .operate ⟨"jumped"⟩ .set (.literal 1)]

def jumpIfStages (flag : Variable) : List Stage :=
  jumpDeeds.map (.guarded ⟨flag, .gt, .literal 0, false⟩)

def callStages : List Stage :=
  [Deed.operate ⟨"return_address"⟩ .set (.variable ⟨"ip"⟩),
    .operate ⟨"return_address"⟩ .add (.literal 1),
    .memory (.push ⟨"sp"⟩ ⟨"return_address"⟩)].map .always ++ jumpDeeds.map .always

def jumpRows : List (String × List Stage) :=
  [("lt", jumpIfStages ⟨"LF"⟩), ("le", jumpIfStages ⟨"LE"⟩), ("eq", jumpIfStages ⟨"EQ"⟩),
    ("ge", jumpIfStages ⟨"GE"⟩), ("gt", jumpIfStages ⟨"GT"⟩), ("ne", jumpIfStages ⟨"NE"⟩),
    ("jmp", jumpDeeds.map .always), ("call", callStages)]

def constantRows : List (String × List Stage) :=
  [("const", [.always (.operate ⟨"cr"⟩ .set (.variable ⟨"const_imm"⟩))]),
    ("sconst", [.guarded ⟨⟨"const_imm"⟩, .ge, .literal 128, false⟩
        (.operate ⟨"const_imm"⟩ .sub (.literal 256)),
      .always (.operate ⟨"cr"⟩ .set (.variable ⟨"const_imm"⟩))]),
    ("econst", [.always (.operate ⟨"cr"⟩ .mul (.literal 256)),
      .always (.operate ⟨"cr"⟩ .add (.variable ⟨"const_imm"⟩))]),
    ("reserved", [])]

def printStages (value : Variable) : List Stage :=
  readStages .loadGeneral ⟨"card_arg"⟩ value ++ [.always (.announce value)]

def printRows (values : List Variable) : List (String × List Stage) :=
  values.map fun value => ("print", printStages value)

section emission

variable {head cloner fetcher : Entity}

theorem emitsStages_takeJump :
    EmitsStages (.standard head cloner fetcher)
      ((Computer.standard head cloner fetcher).takeJump ⟨"jump_target"⟩) () (jumpDeeds.map .always) :=
  (EmitsStages.operate _ (by decide) rfl).seq (.of_deed (Emits.setTo _ _))

theorem emitsStages_jumpIf (flag : Variable) :
    EmitsStages (.standard head cloner fetcher)
      ((Computer.standard head cloner fetcher).jumpIf .standard flag) () (jumpIfStages flag) := by
  have body : EmitsStages (.standard head cloner fetcher)
      ((Computer.standard head cloner fetcher).takeJump ⟨"jump_target"⟩) () (jumpDeeds.map .always) :=
    emitsStages_takeJump
  have block := body.emitBlock ⟨flag, .gt, .literal 0, false⟩
  have emitted := block.bind (f := fun _ => Pure.pure ()) (.pure ())
  rwa [List.append_nil] at emitted

theorem emitsStages_call :
    EmitsStages (.standard head cloner fetcher)
      ((Computer.standard head cloner fetcher).call .standard) () callStages :=
  (EmitsStages.operate _ (by decide) rfl).seq <| (EmitsStages.operate _ (by decide) rfl).seq <|
    (EmitsStages.memory (.push _ _)).seq emitsStages_takeJump

theorem emitsRows_jump :
    EmitsRows (.standard head cloner fetcher)
      ((Computer.standard head cloner fetcher).jumpRows .standard) jumpRows :=
  .cons ⟨rfl, emitsStages_jumpIf _⟩ <| .cons ⟨rfl, emitsStages_jumpIf _⟩ <|
  .cons ⟨rfl, emitsStages_jumpIf _⟩ <| .cons ⟨rfl, emitsStages_jumpIf _⟩ <|
  .cons ⟨rfl, emitsStages_jumpIf _⟩ <| .cons ⟨rfl, emitsStages_jumpIf _⟩ <|
  .cons ⟨rfl, emitsStages_takeJump⟩ <| .cons ⟨rfl, emitsStages_call⟩ .nil

theorem emitsRows_constant :
    EmitsRows (.standard head cloner fetcher)
      ((Computer.standard head cloner fetcher).constantRows .standard) constantRows := by
  have extended : EmitsStages (.standard head cloner fetcher)
      (Variable.signExtend ⟨"const_imm"⟩ 8) ()
      [.guarded ⟨⟨"const_imm"⟩, .ge, .literal 128, false⟩
        (.operate ⟨"const_imm"⟩ .sub (.literal 256))] :=
    ⟨Emits.signExtend _ 8 (by decide) (by decide)⟩
  have copied : EmitsStages (.standard head cloner fetcher)
      (Variable.assign ⟨"cr"⟩ (.variable ⟨"const_imm"⟩)) ()
      [.always (.operate ⟨"cr"⟩ .set (.variable ⟨"const_imm"⟩))] :=
    .operate _ (by decide) rfl
  exact .cons ⟨rfl, copied⟩ <| .cons ⟨rfl, extended.seq copied⟩ <|
    .cons ⟨rfl, (EmitsStages.operate _ (by decide) rfl).seq (.operate _ (by decide) rfl)⟩ <|
    .cons ⟨rfl, .pure ()⟩ .nil

theorem emitsRows_print (values : List Variable) :
    EmitsRows (.standard head cloner fetcher)
      ((Computer.standard head cloner fetcher).cardRows (values.map printCard)) (printRows values) := by
  induction values with
  | nil => exact .nil
  | cons value values ih =>
    exact .cons ⟨rfl, (emitsStages_getGeneral _ _).seq (.announce _)⟩ ih

end emission

theorem isSafe_jumpRows : ∀ row ∈ jumpRows, ∀ stage ∈ row.2, stage.IsSafe := by
  decide

theorem isSafe_constantRows : ∀ row ∈ constantRows, ∀ stage ∈ row.2, stage.IsSafe := by
  decide

theorem fitIn_jumpRows : FitIn 64 jumpRows :=
  fitIn_of_size (by decide)

theorem fitIn_constantRows : FitIn 64 constantRows :=
  fitIn_of_size (by decide)

theorem fitIn_printRows (values : List Variable) : FitIn 64 (printRows values) := by
  intro head cloner fetcher entry mem
  obtain ⟨value, -, rfl⟩ := List.mem_map.1 mem
  exact Nat.le_of_ble_eq_true rfl

def Variable.IsDisplay (v : Variable) : Prop :=
  "card_print".toList <+: v.name.toList

theorem Variable.IsDisplay.ne {v u : Variable} (display : IsDisplay v)
    (other : ¬ "card_print".toList <+: u.name.toList) : v ≠ u := by
  rintro rfl
  exact other display

theorem Variable.IsDisplay.notMem {v : Variable} (display : IsDisplay v) {us : List Variable}
    (others : ∀ u ∈ us, ¬ "card_print".toList <+: u.name.toList) : v ∉ us :=
  fun mem => others v mem display

theorem Variable.IsDisplay.isLoose {v : Variable} (display : IsDisplay v) : IsLoose v := by
  refine ⟨?_, display.notMem (by decide)⟩
  obtain ⟨rest, name⟩ := display
  rw [BlockComputer.Variable.isWord, ← name]
  rfl

def IsPrintCard (card : Card Id) : Prop :=
  ∃ s s', perform newPrintCard s = (.ok card, s')

theorem isDisplay_freshName (s : Session) : Variable.IsDisplay ⟨s.freshName "card_print"⟩ := by
  rcases s.freshName_eq_or "card_print" with same | ⟨n, same⟩
  · rw [same]
    exact List.prefix_rfl
  · rw [same]
    exact ⟨(toString n).toList, String.toList_append.symm⟩

theorem IsPrintCard.exists_display {card : Card Id} (made : IsPrintCard card) :
    ∃ v, Variable.IsDisplay v ∧ printCard v = card := by
  obtain ⟨s, s', made⟩ := made
  have displays : Ensures (newPrintCard : EmitM (Card Id)) fun card =>
      ∃ v, Variable.IsDisplay v ∧ printCard v = card := by
    have fresh : Ensures (freshName "card_print" : EmitM String) fun name =>
        Variable.IsDisplay ⟨name⟩ := by
      intro s name s' made
      cases made
      exact isDisplay_freshName s
    refine .inInit (.bind fresh fun name display => ?_)
    refine .bind (Declares.create name 0).returns fun v same => .pure ⟨v, ?_, rfl⟩
    subst same
    exact display
  exact displays s card s' made

theorem exists_values {cards : List (Card Id)} (made : ∀ card ∈ cards, IsPrintCard card) :
    ∃ values : List Variable, cards = values.map printCard ∧ ∀ v ∈ values, Variable.IsDisplay v := by
  induction cards with
  | nil => exact ⟨[], rfl, List.forall_mem_nil _⟩
  | cons card cards ih =>
    obtain ⟨value, display, rfl⟩ := (made card List.mem_cons_self).exists_display
    obtain ⟨values, rfl, displays⟩ := ih fun other mem => made other (List.mem_cons_of_mem _ mem)
    exact ⟨value :: values, rfl, List.forall_mem_cons.2 ⟨display, displays⟩⟩

theorem isSafe_printRows {values : List Variable} (displays : ∀ v ∈ values, Variable.IsDisplay v) :
    ∀ row ∈ printRows values, ∀ stage ∈ row.2, stage.IsSafe := by
  intro row mem stage inRow
  obtain ⟨value, inside, rfl⟩ := List.mem_map.1 mem
  have display := displays value inside
  simp only [printStages, readStages, List.cons_append, List.nil_append, List.mem_cons,
    List.not_mem_nil, or_false] at inRow
  rcases inRow with rfl | rfl | rfl
  · exact (by decide : (⟨"card_arg"⟩ : Variable) ∉ Memory.scratch)
  · exact ⟨display.isLoose, display.notMem (by decide), by decide, by decide, List.nil_subset _⟩
  · trivial

theorem touches_printRows {values : List Variable} (displays : ∀ v ∈ values, Variable.IsDisplay v)
    {v : Variable} (other : ¬ "card_print".toList <+: v.name.toList) (notRead : v ≠ ⟨"reg_src"⟩) :
    ∀ row ∈ printRows values, ∀ stage ∈ row.2, v ∉ stage.touches := by
  intro row mem stage inRow
  obtain ⟨value, inside, rfl⟩ := List.mem_map.1 mem
  have ne := (displays value inside).ne other
  simp only [printStages, readStages, List.cons_append, List.nil_append, List.mem_cons,
    List.not_mem_nil, or_false] at inRow
  rcases inRow with rfl | rfl | rfl
  · intro touched
    obtain ⟨register, -, rfl⟩ := List.mem_map.1 touched
    exact notRead rfl
  · exact fun touched => ne (List.mem_singleton.1 touched).symm
  · exact List.not_mem_nil

end Machine

end BlockComputer
