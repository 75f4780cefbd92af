import BlockComputer.Proofs.Machine.Flow

/-!
Jumps by an offset, from the line to the next address.

The assembler stores an offset in seven bits, and takes any number that fits them as an unsigned or as a
signed one. The machine reads it as a signed one, so a number from 64 on goes back.
-/

namespace BlockComputer

namespace Machine

open Assembly

theorem instructionSet_offsets : ∀ e ∈ instructionSet, e.mnemonic ∈ offsetJumps →
    e.fields = [(.immediate, ⟨7, 0⟩)] ∧ e.freeBits = 7 ∧ 7 ≤ rowBits (firstWord e) ∧
      firstWord e / 1024 = 1 ∧ firstWord e < 1920 ∧
      ∃ name ∈ rowName? (firstWord e), meaning e.mnemonic e.kinds = .row "jump" name := by
  decide

structure IsOffsetWord (mnemonic : String) (offset : Int) (n : Nat) : Prop where
  admitted : -64 ≤ offset ∧ offset < 128
  group : n / 1024 = 1
  low : n < 1920
  row : ∃ name ∈ rowName? n, meaning mnemonic [.immediate] = .row "jump" name
  residue : (n : Int).bmod 128 = offset.bmod 128

theorem admitted_of_encode {e : Encoding} (fields : e.fields = [(.immediate, ⟨7, 0⟩)]) {offset : Int}
    {word : UInt16} (encodes : e.encode [offset] = .ok word) : -64 ≤ offset ∧ offset < 128 := by
  unfold Encoding.encode at encodes
  rw [fields] at encodes
  split at encodes
  · cases encodes
  · rw [List.zip_cons_cons, List.foldlM_cons] at encodes
    generalize UInt16.ofNat _ = start at encodes
    cases set : Field.set ⟨7, 0⟩ start offset with
    | error e => simp [set, bind, Except.bind] at encodes
    | ok next =>
      have admitted := Field.admits_of_set set
      simp only [Field.admits, Bool.and_eq_true, decide_eq_true_eq] at admitted
      exact admitted

theorem exists_isOffsetWord {line : List Char} {word : UInt16} (encoded : encodeLine line = .ok word)
    {mnemonic : String} {operands : List Operand} (reads : Reads line mnemonic operands)
    (named : mnemonic ∈ offsetJumps) :
    ∃ v : Operand, operands = [v] ∧ IsOffsetWord mnemonic v.value word.toNat := by
  rw [reads.encodeLine_eq] at encoded
  obtain ⟨e, mem, rfl, kinds, encodes⟩ := assemble_eq_ok encoded
  obtain ⟨fields, bits, deep, group, low, row⟩ := instructionSet_offsets e mem named
  have isWord := Encoding.isWord_of_encode mem encodes
  have one : e.kinds = [.immediate] := by rw [Encoding.kinds, fields]; rfl
  rw [one] at kinds row
  obtain ⟨v, rfl⟩ : ∃ v, operands = [v] := by
    have length := congrArg List.length kinds
    rw [List.length_map] at length
    exact List.length_eq_one_iff.1 length.symm
  have top : word.toNat / 2 ^ 7 = firstWord e / 2 ^ 7 := by
    have same := div_eq_firstWord isWord
    rwa [bits] at same
  obtain ⟨sameGroup, sameRow⟩ := rowOf_eq_of_div deep top
  have read := isWord.slots (⟨7, 0⟩, v.value) (by simp [Encoding.slots, fields])
  rw [read_bottom] at read
  have low7 : word.toNat % 128 = (v.value % 128).toNat := read
  refine ⟨v, rfl, ?_, sameGroup.trans group, by omega, ?_, ?_⟩
  · exact admitted_of_encode fields encodes
  · rwa [rowName?, sameGroup, sameRow]
  · have same : ((word.toNat : Nat) : Int) % ((128 : Nat) : Int) = v.value % ((128 : Nat) : Int) := by
      omega
    rw [Int.bmod_def, Int.bmod_def, same]

/-- Seven bits hold a number as it is meant if it is below 64. -/
theorem add_bmod_eq_iff {offset : Int} (admitted : -64 ≤ offset ∧ offset < 128) (ip : Int32) :
    ip + Int32.ofInt (offset.bmod 128) = ip + Int32.ofInt offset ↔ offset < 64 := by
  rw [Int32.add_right_inj]
  constructor
  · intro same
    by_contra high
    have wrapped : offset.bmod 128 = offset - 128 := by
      rw [Int.bmod_def]
      omega
    have numbers := congrArg Int32.toInt same
    rw [wrapped, Int32.toInt_ofInt_of_le (by omega) (by omega),
      Int32.toInt_ofInt_of_le (by omega) (by omega)] at numbers
    omega
  · intro low
    rw [Int.bmod_eq_of_le (by omega) (by omega)]

/-- Where an accepted jump by an offset goes when its condition holds: to the number that its seven bits
stand for with a sign. This is the number on the line unless that is 64 or more. -/
theorem offset_jump_goes {line : List Char} {word : UInt16} (encoded : encodeLine line = .ok word)
    {mnemonic : String} {operands : List Operand} (reads : Reads line mnemonic operands)
    (named : mnemonic ∈ offsetJumps) :
    ∃ v : Operand, operands = [v] ∧ (-64 ≤ v.value ∧ v.value < 128) ∧
      (∃ name ∈ rowName? word.toNat, meaning mnemonic [.immediate] = .row "jump" name) ∧
      ∀ (G : Ground) (limit : Nat) (w : World) (s : State), (∀ card ∈ G.cards, IsPrintCard card) →
        G.parts.primary.length < limit → G.Shows w s → s.scores ⟨"jumped"⟩ = 0 →
        s.word = word.toNat → s.Takes s.word →
        ∃ w' t, World.runChain limit ⟨0, 0, 1⟩ w = some w' ∧ G.Shows w' t ∧
          t.scores ⟨"ip"⟩ = s.scores ⟨"ip"⟩ + Int32.ofInt (v.value.bmod 128) ∧
          (t.scores ⟨"ip"⟩ = s.scores ⟨"ip"⟩ + Int32.ofInt v.value ↔ v.value < 64) := by
  obtain ⟨v, single, isOffset⟩ := exists_isOffsetWord encoded reads named
  refine ⟨v, single, isOffset.admitted, isOffset.row,
    fun G limit w s printCards enough shows still fetched takes => ?_⟩
  obtain ⟨values, cards, displays⟩ := exists_values printCards
  obtain ⟨w', ran, shows'⟩ := Ground.runs_cycle cards displays shows enough
  have proceeds := State.proceeds_next displays still
  have address := proceeds.jump (by rw [fetched, isOffset.group])
  rw [if_pos takes, fetched, jumpTarget, if_pos isOffset.low, isOffset.residue] at address
  refine ⟨w', _, ran, shows', address, ?_⟩
  rw [address]
  exact add_bmod_eq_iff isOffset.admitted _

def firstWordState (word : Int32) : State :=
  (Ground.stateOf []).write 0 word

theorem shows_firstWordState {G : Ground} (constants : G.constants = machineConstants) (word : Int32) :
    G.Shows (G.picture (firstWordState word)) (firstWordState word) :=
  Ground.shows_stateOf constants (List.forall_mem_nil _) (by decide) rfl

theorem offset_jump_goes_back_three :
    ∃ (G : Ground) (limit : Nat) (w w' : World) (t : State),
      encodeLine "jmp -3".toList = .ok 1917 ∧
      Reads "jmp -3".toList "jmp" [⟨.immediate, -3⟩] ∧ "jmp" ∈ offsetJumps ∧
      G.Shows w (firstWordState 1917) ∧ World.runChain limit ⟨0, 0, 1⟩ w = some w' ∧ G.Shows w' t ∧
      t.scores ⟨"ip"⟩ = -3 := by
  have encoded : encodeLine "jmp -3".toList = .ok 1917 := by decide +kernel
  have reads : Reads "jmp -3".toList "jmp" [⟨.immediate, -3⟩] :=
    ⟨"jmp".toList, ["-3".toList], by decide +kernel, rfl, by decide +kernel⟩
  obtain ⟨G, cards, constants⟩ := Ground.exists_bare
  have shows := shows_firstWordState constants 1917
  obtain ⟨v, single, -, -, goes⟩ := offset_jump_goes encoded reads (by decide)
  cases single
  obtain ⟨w', t, ran, shows', -, address⟩ := goes G _ _ _ (fun card mem => by simp [cards] at mem)
    (Nat.lt_succ_self _) shows (by decide) (by decide) (by decide)
  exact ⟨G, _, _, w', t, encoded, reads, by decide, shows, ran, shows',
    (address.2 (by decide)).trans (by decide)⟩

/-- The assembler accepts a jump to the sixty-fourth address ahead, and the machine goes back by as many
addresses. -/
theorem offset_jump_turns :
    ∃ (G : Ground) (limit : Nat) (w w' : World) (t : State),
      encodeLine "jmp 64".toList = .ok 1856 ∧
      Reads "jmp 64".toList "jmp" [⟨.immediate, 64⟩] ∧
      G.Shows w (firstWordState 1856) ∧ (firstWordState 1856).Takes 1856 ∧
      World.runChain limit ⟨0, 0, 1⟩ w = some w' ∧ G.Shows w' t ∧
      t.scores ⟨"ip"⟩ = -64 ∧ t.scores ⟨"ip"⟩ ≠ (firstWordState 1856).scores ⟨"ip"⟩ + 64 := by
  obtain ⟨G, cards, constants⟩ := Ground.exists_bare
  have shows := shows_firstWordState constants 1856
  have displays : ∀ v ∈ ([] : List Variable), Variable.IsDisplay v := List.forall_mem_nil _
  obtain ⟨w', ran, shows'⟩ := Ground.runs_cycle cards displays shows (Nat.lt_succ_self _)
  have address := (State.proceeds_next displays (s := firstWordState 1856) (by decide)).jump (by decide)
  have back : ((firstWordState 1856).next []).scores ⟨"ip"⟩ = -64 := address.trans (by decide)
  refine ⟨G, _, _, w', _, by decide +kernel,
    ⟨"jmp".toList, ["64".toList], by decide +kernel, rfl, by decide +kernel⟩, shows, by decide, ran,
    shows', back, ?_⟩
  rw [back]
  decide

end Machine

end BlockComputer
