import BlockComputer.Assembly.Program
import Mathlib.Data.List.Forall2

/-!
Lines that the assembler accepts.

An accepted line is read as a mnemonic with operands, and encoded by an entry of the instruction set that
takes operands of these kinds. A register operand is the register's number.
-/

namespace BlockComputer.Assembly

section Except

variable {α β ε : Type} {f : α → Except ε β} {xs : List α} {ys : List β} {e : ε}

theorem mapM_eq_ok_iff : xs.mapM f = .ok ys ↔ List.Forall₂ (fun x y => f x = .ok y) xs ys := by
  induction xs generalizing ys with
  | nil =>
    rw [List.mapM_nil, List.forall₂_nil_left_iff]
    exact ⟨fun same => by cases same; rfl, fun same => same ▸ rfl⟩
  | cons x xs ih =>
    rw [List.mapM_cons, List.forall₂_cons_left_iff]
    cases first : f x with
    | error e => simp [bind, Except.bind]
    | ok y =>
      cases others : xs.mapM f with
      | error e => simp [bind, Except.bind, ← ih, others]
      | ok zs => simp [bind, Except.bind, pure, Except.pure, ← ih, others, eq_comm]

theorem mapM_eq_error_iff : xs.mapM f = .error e ↔
    ∃ before x after, xs = before ++ x :: after ∧ (∀ b ∈ before, ∃ y, f b = .ok y) ∧ f x = .error e := by
  induction xs with
  | nil => simp [pure, Except.pure]
  | cons x xs ih =>
    rw [List.mapM_cons]
    constructor
    · intro h
      cases first : f x with
      | error e' =>
        rw [first] at h
        cases h
        exact ⟨[], x, xs, rfl, List.forall_mem_nil _, first⟩
      | ok y =>
        cases others : xs.mapM f with
        | ok ys => simp [first, others, bind, Except.bind, pure, Except.pure] at h
        | error e' =>
          simp only [first, others, bind, Except.bind] at h
          cases h
          obtain ⟨before, z, after, rfl, good, bad⟩ := ih.1 others
          exact ⟨x :: before, z, after, rfl, List.forall_mem_cons.2 ⟨⟨y, first⟩, good⟩, bad⟩
    · rintro ⟨before, z, after, split, good, bad⟩
      cases before with
      | nil =>
        cases split
        simp [bad, bind, Except.bind]
      | cons b before =>
        rw [List.cons_append, List.cons.injEq] at split
        obtain ⟨rfl, behind⟩ := split
        obtain ⟨⟨y, first⟩, good⟩ := List.forall_mem_cons.1 good
        have others := ih.2 ⟨before, z, after, behind, good, bad⟩
        simp only [first, others, bind, Except.bind]

end Except

def Reads (line : List Char) (mnemonic : String) (operands : List Operand) : Prop :=
  ∃ name texts, Text.words line = name :: texts ∧ String.ofList name = mnemonic ∧
    texts.mapM readOperand = .ok operands

theorem assemble_eq_ok {mnemonic : String} {operands : List Operand} {word : UInt16}
    (h : assemble mnemonic operands = .ok word) :
    ∃ e ∈ instructionSet, e.mnemonic = mnemonic ∧ e.kinds = operands.map Operand.kind ∧
      e.encode (operands.map Operand.value) = .ok word := by
  unfold assemble at h
  cases known : candidates mnemonic with
  | nil =>
    rw [known] at h
    cases h
  | cons first others =>
    rw [known] at h
    simp only at h
    cases found : (first :: others).find? (·.accepts (operands.map Operand.kind)) with
    | none =>
      rw [found] at h
      cases h
    | some e =>
      rw [found] at h
      have mem : e ∈ candidates mnemonic := known ▸ List.mem_of_find?_eq_some found
      have accepted : e.accepts (operands.map Operand.kind) = true :=
        List.find?_some (p := fun e => Encoding.accepts e (operands.map Operand.kind)) found
      obtain ⟨inSet, named⟩ := List.mem_filter.1 mem
      exact ⟨e, inSet, beq_iff_eq.1 named, beq_iff_eq.1 accepted, h⟩

theorem encodeLine_eq_ok {line : List Char} {word : UInt16} (h : encodeLine line = .ok word) :
    ∃ mnemonic operands, Reads line mnemonic operands ∧ assemble mnemonic operands = .ok word := by
  unfold encodeLine at h
  cases split : Text.words line with
  | nil =>
    rw [split] at h
    cases h
  | cons name texts =>
    rw [split] at h
    cases read : texts.mapM readOperand with
    | error e => simp [read, bind, Except.bind] at h
    | ok operands =>
      simp only [read, bind, Except.bind] at h
      exact ⟨_, operands, ⟨name, texts, split, rfl, read⟩, h⟩

theorem Reads.encodeLine_eq {line : List Char} {mnemonic : String} {operands : List Operand}
    (h : Reads line mnemonic operands) : encodeLine line = assemble mnemonic operands := by
  obtain ⟨name, texts, split, rfl, read⟩ := h
  simp only [encodeLine, split, read, bind, Except.bind]

def Operand.IsSound (o : Operand) : Prop :=
  o.kind ≠ .immediate → 0 ≤ o.value ∧ o.value < 8

namespace Operand

theorem isSound_of_ofRegister? {first second : OperandKind} {name : String} {o : Operand}
    (h : ofRegister? first second name = some o) : o.IsSound := by
  have index (names : List String) (eight : names.length = 8) {i : Nat}
      (found : Register.index? names name = some i) : i < 8 :=
    eight ▸ (List.findIdx?_eq_some_iff_getElem.1 found).choose
  intro _
  unfold ofRegister? at h
  split at h
  · next i found =>
    cases h
    have less := index _ rfl found
    simp only
    omega
  · obtain ⟨_, lifted, same⟩ := Option.map_eq_some_iff.1 h
    obtain ⟨i, found, cast⟩ := Option.bind_eq_some_iff.1 lifted
    cases cast
    cases same
    have less := index _ rfl found
    simp only
    omega

theorem isSound_of_parse? {text : List Char} {o : Operand} (h : parse? text = some o) :
    o.IsSound := by
  unfold parse? at h
  split at h
  · exact isSound_of_ofRegister? h
  · split at h
    · next found =>
      cases h
      exact isSound_of_ofRegister? found
    · obtain ⟨n, -, same⟩ := Option.map_eq_some_iff.1 h
      cases same
      intro immediate
      exact absurd rfl immediate

end Operand

theorem isSound_of_readOperand {text : List Char} {o : Operand} (h : readOperand text = .ok o) :
    o.IsSound := by
  unfold readOperand Operand.parse at h
  split at h
  · next found =>
    cases h
    exact Operand.isSound_of_parse? found
  · cases h

theorem isSound_of_mapM {texts : List (List Char)} {operands : List Operand}
    (h : texts.mapM readOperand = .ok operands) : ∀ o ∈ operands, o.IsSound := by
  have read := mapM_eq_ok_iff.1 h
  clear h
  induction read with
  | nil => exact List.forall_mem_nil _
  | cons first _ ih => exact List.forall_mem_cons.2 ⟨isSound_of_readOperand first, ih⟩

theorem Reads.isSound {line : List Char} {mnemonic : String} {operands : List Operand}
    (h : Reads line mnemonic operands) : ∀ o ∈ operands, o.IsSound := by
  obtain ⟨name, texts, -, -, read⟩ := h
  exact isSound_of_mapM read

end BlockComputer.Assembly
