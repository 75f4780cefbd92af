import BlockComputer.Proofs.Assembly.Encoding
import BlockComputer.Proofs.Assembly.Grammar
import BlockComputer.Proofs.Assembly.Line

/-!
Which lines the assembler accepts, and what it says about the others.

A line is accepted if it is a mnemonic with operands as one entry of the instruction set takes them and as
their fields can hold them. Of the faults of another line the first one is reported, in the order in which
the stages of the reader come: no word at all, an operand that is none, an unknown mnemonic, operands that
no entry takes, a number that does not fit. Blanks and the commas behind operands decide nothing.
-/

namespace BlockComputer.Assembly

def IsOperand (token : List Char) (o : Operand) : Prop :=
  ∃ text, Text.Trails token text ∧ Operand.Spells text o

theorem readOperand_eq_ok_iff {token : List Char} {o : Operand} :
    readOperand token = .ok o ↔ IsOperand token o := by
  unfold readOperand Operand.parse IsOperand
  simp only [← Operand.parse?_eq_some_iff, ← Text.dropEnd_comma_eq_iff, exists_eq_left']
  cases Operand.parse? (Text.dropEnd (· == ',') token) <;> simp

theorem readOperand_eq_error_iff {token : List Char} {e : Failure} :
    readOperand token = .error e ↔ ∃ text, Text.Trails token text ∧ (∀ o, ¬ Operand.Spells text o) ∧
      e = .error (.invalidOperand (String.ofList text)) := by
  unfold readOperand Operand.parse
  simp only [← Operand.parse?_eq_some_iff, ← Text.dropEnd_comma_eq_iff, exists_eq_left']
  cases Operand.parse? (Text.dropEnd (· == ',') token) <;> simp [eq_comm]

def Field.Takes (f : Field) (value : Int) : Prop :=
  -2 ^ (f.width - 1) ≤ value ∧ value < 2 ^ f.width

instance (f : Field) (value : Int) : Decidable (f.Takes value) :=
  inferInstanceAs (Decidable (_ ∧ _))

theorem Field.admits_iff {f : Field} (pos : 0 < f.width) {value : Int} : f.admits value ↔ f.Takes value := by
  have half : Int.pow 2 f.width / 2 = 2 ^ (f.width - 1) := by
    obtain ⟨w, same⟩ := Nat.exists_eq_succ_of_ne_zero (Nat.ne_of_gt pos)
    have double : Int.pow 2 (w + 1) = 2 ^ w * 2 := Int.pow_succ 2 w
    rw [same, Nat.succ_eq_add_one, double, Int.mul_ediv_cancel _ (by decide), Nat.add_sub_cancel]
  rw [admits, Bool.and_eq_true, decide_eq_true_eq, decide_eq_true_eq, half]
  rfl

theorem Field.set_cases {f : Field} (inCell : f.isInCell) (word : UInt16) (value : Int) :
    (f.Takes value ∧ ∃ word', f.set word value = .ok word') ∨
      ¬ f.Takes value ∧ f.set word value = .error (.error (.fieldOverflow value f.width)) := by
  have bounds := inCell
  rw [isInCell, Bool.and_eq_true, decide_eq_true_eq, decide_eq_true_eq] at bounds
  rw [← admits_iff bounds.1]
  unfold set
  rw [if_neg (by omega)]
  by_cases takes : f.admits value
  · have other : ¬ (f.width = 63 ∨ ¬ f.admits value = true) := by
      rintro (wide | not)
      · omega
      · exact not takes
    rw [if_neg other, if_pos inCell]
    exact .inl ⟨takes, _, rfl⟩
  · rw [if_pos (.inr takes)]
    exact .inr ⟨takes, rfl⟩

namespace Encoding

theorem isInCell_of_mem {e : Encoding} (mem : e ∈ instructionSet) : ∀ f ∈ e.slots, f.isInCell := by
  have checked : ∀ e ∈ instructionSet, ∀ f ∈ e.slots, f.isInCell := by decide
  exact checked e mem

theorem encode_cases {e : Encoding} (mem : e ∈ instructionSet) (values : List Int) :
    ((∀ slot ∈ e.slots.zip values, slot.1.Takes slot.2) ∧ ∃ word, e.encode values = .ok word) ∨
      ∃ before slot after, e.slots.zip values = before ++ slot :: after ∧
        (∀ slot ∈ before, slot.1.Takes slot.2) ∧ ¬ slot.1.Takes slot.2 ∧
        e.encode values = .error (.error (.fieldOverflow slot.2 slot.1.width)) := by
  have inCell := isInCell_of_mem mem
  have width := (isSound_of_mem mem).width
  unfold encode
  rw [if_neg (Nat.not_lt.2 width)]
  unfold slots at inCell ⊢
  generalize UInt16.ofNat (e.opcode.toNat * Nat.pow 2 (wordBits - e.opcodeWidth)) = start
  generalize e.fields = fields at inCell ⊢
  induction fields generalizing values start with
  | nil => exact .inl ⟨List.forall_mem_nil _, _, rfl⟩
  | cons slot fields ih =>
    cases values with
    | nil => exact .inl ⟨List.forall_mem_nil _, _, rfl⟩
    | cons value values =>
      obtain ⟨first, others⟩ := List.forall_mem_cons.1 inCell
      simp only [List.map_cons, List.zip_cons_cons, List.foldlM_cons]
      rcases Field.set_cases first start value with ⟨takes, next, set⟩ | ⟨not, set⟩
      · simp only [set, bind, Except.bind]
        rcases ih values next others with ⟨all, done⟩ | ⟨before, bad, after, split, good, not, failed⟩
        · exact .inl ⟨List.forall_mem_cons.2 ⟨takes, all⟩, done⟩
        · refine .inr ⟨(slot.2, value) :: before, bad, after, ?_, ?_, not, failed⟩
          · rw [split, List.cons_append]
          · exact List.forall_mem_cons.2 ⟨takes, good⟩
      · simp only [set, bind, Except.bind]
        exact .inr ⟨[], (slot.2, value), _, rfl, List.forall_mem_nil _, not, rfl⟩

end Encoding

theorem nodup_mnemonic_kinds : (instructionSet.map fun e => (e.mnemonic, e.kinds)).Nodup := by
  decide

theorem entry_unique {e e' : Encoding} (mem : e ∈ instructionSet) (mem' : e' ∈ instructionSet)
    (mnemonic : e.mnemonic = e'.mnemonic) (kinds : e.kinds = e'.kinds) : e = e' :=
  List.inj_on_of_nodup_map nodup_mnemonic_kinds mem mem' (Prod.ext mnemonic kinds)

/-- The entry takes operands of these kinds under this mnemonic. -/
structure Encoding.IsFor (e : Encoding) (mnemonic : String) (kinds : List OperandKind) : Prop where
  mem : e ∈ instructionSet
  mnemonic_eq : e.mnemonic = mnemonic
  kinds_eq : e.kinds = kinds

theorem mem_candidates_iff {e : Encoding} {mnemonic : String} :
    e ∈ candidates mnemonic ↔ e ∈ instructionSet ∧ e.mnemonic = mnemonic := by
  rw [candidates, List.mem_filter, beq_iff_eq]

/-- The entry that encodes a line is told by its mnemonic and its kinds, wherever it stands in the table. -/
theorem find?_filter_eq_some_iff (table : List Encoding) (same : ∀ e, e ∈ table ↔ e ∈ instructionSet)
    {e : Encoding} {mnemonic : String} {kinds : List OperandKind} :
    (table.filter (·.mnemonic == mnemonic)).find? (·.accepts kinds) = some e ↔ e.IsFor mnemonic kinds := by
  have isFor {e : Encoding}
      (found : (table.filter (·.mnemonic == mnemonic)).find? (·.accepts kinds) = some e) :
      e.IsFor mnemonic kinds := by
    obtain ⟨mem, named⟩ := List.mem_filter.1 (List.mem_of_find?_eq_some found)
    exact ⟨(same e).1 mem, beq_iff_eq.1 named,
      beq_iff_eq.1 (List.find?_some (p := fun e => Encoding.accepts e kinds) found)⟩
  refine ⟨isFor, fun h => ?_⟩
  cases found : (table.filter (·.mnemonic == mnemonic)).find? (·.accepts kinds) with
  | none =>
    have inside : e ∈ table.filter (·.mnemonic == mnemonic) :=
      List.mem_filter.2 ⟨(same e).2 h.mem, beq_iff_eq.2 h.mnemonic_eq⟩
    exact absurd (beq_iff_eq.2 h.kinds_eq) (List.find?_eq_none.1 found e inside)
  | some e' =>
    have other := isFor found
    rw [entry_unique other.mem h.mem (other.mnemonic_eq.trans h.mnemonic_eq.symm)
      (other.kinds_eq.trans h.kinds_eq.symm)]

theorem find?_candidates_eq_some_iff {e : Encoding} {mnemonic : String} {kinds : List OperandKind} :
    (candidates mnemonic).find? (·.accepts kinds) = some e ↔ e.IsFor mnemonic kinds :=
  find?_filter_eq_some_iff instructionSet fun _ => Iff.rfl

theorem assemble_of_isFor {e : Encoding} {mnemonic : String} {operands : List Operand}
    (h : e.IsFor mnemonic (operands.map Operand.kind)) :
    assemble mnemonic operands = e.encode (operands.map Operand.value) := by
  have found := find?_candidates_eq_some_iff.2 h
  unfold assemble
  cases known : candidates mnemonic with
  | nil =>
    rw [known] at found
    cases found
  | cons first others =>
    rw [known] at found
    simp only [found]

theorem assemble_of_unknown {mnemonic : String} (unknown : ∀ e ∈ instructionSet, e.mnemonic ≠ mnemonic)
    (operands : List Operand) :
    assemble mnemonic operands = .error (.error (.unknownMnemonic mnemonic)) := by
  have none : candidates mnemonic = [] := List.filter_eq_nil_iff.2 fun e mem same =>
    unknown e mem (beq_iff_eq.1 same)
  unfold assemble
  rw [none]

theorem assemble_of_kinds {mnemonic : String} {operands : List Operand} {e : Encoding}
    (mem : e ∈ instructionSet) (named : e.mnemonic = mnemonic)
    (noEntry : ∀ e, ¬ Encoding.IsFor e mnemonic (operands.map Operand.kind)) :
    assemble mnemonic operands = .error (.error
      (.noEncoding mnemonic (operands.map Operand.kind) (candidates mnemonic))) := by
  have inside := mem_candidates_iff.2 ⟨mem, named⟩
  have none : (candidates mnemonic).find? (·.accepts (operands.map Operand.kind)) = none := by
    refine List.find?_eq_none.2 fun e' mem' accepts => ?_
    obtain ⟨mem', named'⟩ := mem_candidates_iff.1 mem'
    exact noEntry e' ⟨mem', named', beq_iff_eq.1 accepts⟩
  unfold assemble
  cases known : candidates mnemonic with
  | nil =>
    rw [known] at inside
    cases inside
  | cons first others =>
    rw [known] at none
    simp only [none]

/-- The line is written as the entry wants it, with operands that the entry's fields can hold. -/
structure IsAccepted (line : List Char) (e : Encoding) (operands : List Operand) : Prop where
  reads : ∃ name tokens, Text.IsSpaced line (name :: tokens) ∧ List.Forall₂ IsOperand tokens operands ∧
    e.IsFor (String.ofList name) (operands.map Operand.kind)
  takes : ∀ slot ∈ e.slots.zip (operands.map Operand.value), slot.1.Takes slot.2

/-- The first fault of the line, and how it is reported. -/
inductive HasFault (line : List Char) : Error → Prop
  | noWord (spaced : Text.IsSpaced line []) : HasFault line (.unknownMnemonic (String.ofList line))
  | operand {name token text : List Char} {before after : List (List Char)}
      (spaced : Text.IsSpaced line (name :: (before ++ token :: after)))
      (good : ∀ t ∈ before, ∃ o, IsOperand t o) (trails : Text.Trails token text)
      (bad : ∀ o, ¬ Operand.Spells text o) : HasFault line (.invalidOperand (String.ofList text))
  | mnemonic {name : List Char} {tokens : List (List Char)} {operands : List Operand}
      (spaced : Text.IsSpaced line (name :: tokens)) (good : List.Forall₂ IsOperand tokens operands)
      (unknown : ∀ e ∈ instructionSet, e.mnemonic ≠ String.ofList name) :
      HasFault line (.unknownMnemonic (String.ofList name))
  | kinds {name : List Char} {tokens : List (List Char)} {operands : List Operand} {e : Encoding}
      (spaced : Text.IsSpaced line (name :: tokens)) (good : List.Forall₂ IsOperand tokens operands)
      (mem : e ∈ instructionSet) (named : e.mnemonic = String.ofList name)
      (noEntry : ∀ e, ¬ Encoding.IsFor e (String.ofList name) (operands.map Operand.kind)) :
      HasFault line (.noEncoding (String.ofList name) (operands.map Operand.kind)
        (instructionSet.filter fun e => e.mnemonic = String.ofList name))
  | range {name : List Char} {tokens : List (List Char)} {operands : List Operand} {e : Encoding}
      {before after : List (Field × Int)} {slot : Field × Int}
      (spaced : Text.IsSpaced line (name :: tokens)) (good : List.Forall₂ IsOperand tokens operands)
      (isFor : e.IsFor (String.ofList name) (operands.map Operand.kind))
      (split : e.slots.zip (operands.map Operand.value) = before ++ slot :: after)
      (fits : ∀ slot ∈ before, slot.1.Takes slot.2) (bad : ¬ slot.1.Takes slot.2) :
      HasFault line (.fieldOverflow slot.2 slot.1.width)

variable {line : List Char}

theorem encodeLine_of_words {name : List Char} {tokens : List (List Char)}
    (spaced : Text.IsSpaced line (name :: tokens)) :
    encodeLine line = tokens.mapM readOperand >>= assemble (String.ofList name) := by
  rw [encodeLine, Text.words_eq_iff.2 spaced]

theorem reads_of_isSpaced {name : List Char} {tokens : List (List Char)} {operands : List Operand}
    (spaced : Text.IsSpaced line (name :: tokens)) (good : List.Forall₂ IsOperand tokens operands) :
    Reads line (String.ofList name) operands := by
  refine ⟨name, tokens, Text.words_eq_iff.2 spaced, rfl, mapM_eq_ok_iff.2 (good.imp fun token o read => ?_)⟩
  exact readOperand_eq_ok_iff.2 read

theorem IsAccepted.encodeLine_eq {e : Encoding} {operands : List Operand} (h : IsAccepted line e operands) :
    encodeLine line = e.encode (operands.map Operand.value) := by
  obtain ⟨name, tokens, spaced, good, isFor⟩ := h.reads
  rw [(reads_of_isSpaced spaced good).encodeLine_eq, assemble_of_isFor isFor]

theorem IsAccepted.exists_word {e : Encoding} {operands : List Operand} (h : IsAccepted line e operands) :
    ∃ word, encodeLine line = .ok word := by
  obtain ⟨_, _, -, -, isFor⟩ := h.reads
  rw [h.encodeLine_eq]
  rcases Encoding.encode_cases isFor.mem (operands.map Operand.value) with ⟨-, done⟩ | failed
  · exact done
  · obtain ⟨before, slot, after, split, -, bad, -⟩ := failed
    exact absurd (h.takes slot (split ▸ List.mem_append_cons_self)) bad

theorem HasFault.encodeLine_eq {cause : Error} (h : HasFault line cause) :
    encodeLine line = .error (.error cause) := by
  cases h with
  | noWord spaced => rw [encodeLine, Text.words_eq_iff.2 spaced]
  | @operand name token text before after spaced good trails bad =>
    have failed := readOperand_eq_error_iff.2 ⟨text, trails, bad, rfl⟩
    have readable (t : List Char) (mem : t ∈ before) : ∃ o, readOperand t = .ok o :=
      (good t mem).imp fun o read => readOperand_eq_ok_iff.2 read
    rw [encodeLine_of_words spaced, mapM_eq_error_iff.2 ⟨before, token, after, rfl, readable, failed⟩]
    rfl
  | mnemonic spaced good unknown =>
    rw [(reads_of_isSpaced spaced good).encodeLine_eq, assemble_of_unknown unknown]
  | kinds spaced good mem named noEntry =>
    rw [(reads_of_isSpaced spaced good).encodeLine_eq, assemble_of_kinds mem named noEntry]
    rfl
  | @range name tokens operands e before after slot spaced good isFor split fits bad =>
    rw [(reads_of_isSpaced spaced good).encodeLine_eq, assemble_of_isFor isFor]
    rcases Encoding.encode_cases isFor.mem (operands.map Operand.value) with ⟨all, -⟩ | failed
    · exact absurd (all slot (split ▸ List.mem_append_cons_self)) bad
    · obtain ⟨before', slot', after', split', fits', bad', failed⟩ := failed
      have first {b a : List (Field × Int)} {s : Field × Int} (cut : e.slots.zip _ = b ++ s :: a)
          (fit : ∀ slot ∈ b, slot.1.Takes slot.2) (not : ¬ s.1.Takes s.2) :
          (e.slots.zip (operands.map Operand.value)).find? (fun slot => ¬ slot.1.Takes slot.2) = some s :=
        List.find?_eq_some_iff_append.2 ⟨by simpa using not, b, a, cut, fun t mem => by simpa using fit t mem⟩
      have same := (first split fits bad).symm.trans (first split' fits' bad')
      rw [failed, Option.some.inj same]

theorem accepted_or_hasFault (line : List Char) :
    (∃ e operands, IsAccepted line e operands) ∨ ∃ cause, HasFault line cause := by
  obtain ⟨words, spaced⟩ := Text.IsSpaced.exists_words line
  cases words with
  | nil => exact .inr ⟨_, .noWord spaced⟩
  | cons name tokens =>
    cases read : tokens.mapM readOperand with
    | error failure =>
      obtain ⟨before, token, after, rfl, good, bad⟩ := mapM_eq_error_iff.1 read
      obtain ⟨text, trails, bad, -⟩ := readOperand_eq_error_iff.1 bad
      refine .inr ⟨_, .operand spaced (fun t mem => ?_) trails bad⟩
      exact (good t mem).imp fun o => readOperand_eq_ok_iff.1
    | ok operands =>
      have good : List.Forall₂ IsOperand tokens operands :=
        (mapM_eq_ok_iff.1 read).imp fun token o => readOperand_eq_ok_iff.1
      by_cases unknown : ∀ e ∈ instructionSet, e.mnemonic ≠ String.ofList name
      · exact .inr ⟨_, .mnemonic spaced good unknown⟩
      · obtain ⟨e, mem, named⟩ : ∃ e ∈ instructionSet, e.mnemonic = String.ofList name := by
          simpa using unknown
        by_cases noEntry : ∀ e, ¬ Encoding.IsFor e (String.ofList name) (operands.map Operand.kind)
        · exact .inr ⟨_, .kinds spaced good mem named noEntry⟩
        · obtain ⟨e, isFor⟩ := not_forall_not.1 noEntry
          rcases Encoding.encode_cases isFor.mem (operands.map Operand.value) with ⟨takes, -⟩ | failed
          · exact .inl ⟨e, operands, ⟨name, tokens, spaced, good, isFor⟩, takes⟩
          · obtain ⟨before, slot, after, split, fits, bad, -⟩ := failed
            exact .inr ⟨_, .range spaced good isFor split fits bad⟩

/-- The two tokens differ in the commas behind them only. -/
def SameUpToCommas (token token' : List Char) : Prop :=
  ∃ text, Text.Trails token text ∧ Text.Trails token' text

/-- The assembler accepts the lines of its grammar and no others, reports the first fault of any other
line, and does not look at how many blanks and commas there are. -/
theorem encodeLine_follows_grammar (line : List Char) :
    ((∃ word, encodeLine line = .ok word) ↔ ∃ e operands, IsAccepted line e operands) ∧
      (∀ failure, encodeLine line = .error failure ↔ ∃ cause, failure = .error cause ∧ HasFault line cause) ∧
      ∀ line' name tokens tokens', Text.IsSpaced line (name :: tokens) →
        Text.IsSpaced line' (name :: tokens') → List.Forall₂ SameUpToCommas tokens tokens' →
        encodeLine line' = encodeLine line := by
  refine ⟨⟨fun ⟨word, encoded⟩ => ?_, fun ⟨e, operands, accepted⟩ => accepted.exists_word⟩,
    fun failure => ⟨fun failed => ?_, ?_⟩, fun line' name tokens tokens' spaced spaced' same => ?_⟩
  · refine (accepted_or_hasFault line).resolve_right fun ⟨cause, fault⟩ => ?_
    rw [fault.encodeLine_eq] at encoded
    cases encoded
  · rcases accepted_or_hasFault line with ⟨e, operands, accepted⟩ | ⟨cause, fault⟩
    · obtain ⟨word, encoded⟩ := accepted.exists_word
      rw [encoded] at failed
      cases failed
    · rw [fault.encodeLine_eq] at failed
      cases failed
      exact ⟨cause, rfl, fault⟩
  · rintro ⟨cause, rfl, fault⟩
    exact fault.encodeLine_eq
  · have texts : tokens'.mapM readOperand = tokens.mapM readOperand := by
      clear spaced spaced'
      induction same with
      | nil => rfl
      | cons first _ ih =>
        obtain ⟨text, trails, trails'⟩ := first
        rw [List.mapM_cons, List.mapM_cons, ih, readOperand, readOperand,
          Text.dropEnd_comma_eq_iff.2 trails, Text.dropEnd_comma_eq_iff.2 trails']
    rw [encodeLine_of_words spaced, encodeLine_of_words spaced', texts]

theorem encodeLine_follows_grammar_spread :
    Text.IsSpaced "add a0, a1".toList ["add".toList, "a0,".toList, "a1".toList] ∧
      Text.IsSpaced "\tadd a0  a1,,\n".toList ["add".toList, "a0".toList, "a1,,".toList] ∧
      encodeLine "\tadd a0  a1,,\n".toList = encodeLine "add a0, a1".toList ∧
      HasFault "add a0, a1 q".toList (.invalidOperand "q") ∧
      HasFault "const 256".toList (.fieldOverflow 256 8) := by
  have spaced : Text.IsSpaced "add a0, a1".toList ["add".toList, "a0,".toList, "a1".toList] :=
    Text.words_eq_iff.1 (by decide)
  have spread : Text.IsSpaced "\tadd a0  a1,,\n".toList ["add".toList, "a0".toList, "a1,,".toList] :=
    Text.words_eq_iff.1 (by decide)
  have first : SameUpToCommas "a0,".toList "a0".toList :=
    ⟨"a0".toList, Text.dropEnd_comma_eq_iff.1 (by decide), Text.dropEnd_comma_eq_iff.1 (by decide)⟩
  have second : SameUpToCommas "a1".toList "a1,,".toList :=
    ⟨"a1".toList, Text.dropEnd_comma_eq_iff.1 (by decide), Text.dropEnd_comma_eq_iff.1 (by decide)⟩
  have fault {line : List Char} {cause : Error} (failed : encodeLine line = .error (.error cause)) :
      HasFault line cause := by
    obtain ⟨cause', same, fault⟩ := ((encodeLine_follows_grammar line).2.1 _).1 failed
    cases same
    exact fault
  exact ⟨spaced, spread,
    (encodeLine_follows_grammar _).2.2 _ _ _ _ spaced spread (.cons first (.cons second .nil)),
    fault (by decide), fault (by decide)⟩

end BlockComputer.Assembly
