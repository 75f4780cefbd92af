import BlockComputer.Proofs.Assembly.Acceptance
import BlockComputer.Proofs.Machine.Flow
import Mathlib.Data.Nat.Digits.Defs
import Mathlib.Tactic.Ring

/-!
Numbers in the constant register.

A word of the constant group carries one byte, which it loads or puts behind the bytes that are there
already. A row of such words therefore evaluates their bytes in base 256, from the highest one down, and
the register keeps what the number is modulo its 32 bits.
-/

namespace BlockComputer

namespace Machine

open Assembly

def digit (signed : Bool) (b : UInt8) : Int :=
  if signed then b.toInt8.toInt else b.toNat

/-- The number that is written with bytes in base 256, behind a leading digit. -/
def numeral (lead : Int) (bytes : List UInt8) : Int :=
  lead * 256 ^ bytes.length + (Nat.ofDigits 256 (bytes.reverse.map UInt8.toNat) : Nat)

theorem numeral_nil (lead : Int) : numeral lead [] = lead := by
  simp [numeral]

theorem numeral_cons (lead : Int) (b : UInt8) (bytes : List UInt8) :
    numeral lead (b :: bytes) = numeral (lead * 256 + b.toNat) bytes := by
  simp only [numeral, List.length_cons, List.reverse_cons, List.map_append, List.map_cons, List.map_nil,
    Nat.ofDigits_append, Nat.ofDigits_singleton, List.length_map, List.length_reverse]
  push_cast
  ring

theorem digit_signed (b : UInt8) :
    digit true b = if 2 * b.toNat < 256 then (b.toNat : Int) else b.toNat - 256 :=
  BitVec.toInt_eq_toNat_cond b.toBitVec

theorem exists_digit_eq (signed : Bool) (b : UInt8) : ∃ k : Int, digit signed b = b.toNat + 256 * k := by
  cases signed with
  | false => exact ⟨0, by simp [digit]⟩
  | true =>
    by_cases low : 2 * b.toNat < 256
    · exact ⟨0, by rw [digit_signed, if_pos low]; omega⟩
    · exact ⟨-1, by rw [digit_signed, if_neg low]; omega⟩

/-- Four bytes are enough for every score, whether the first one has a sign or not: the sign is worth a
multiple of what a score wraps at. -/
theorem exists_numeral_eq (signed : Bool) (n : Int32) :
    ∃ b bytes, bytes.length = 3 ∧ Int32.ofInt (numeral (digit signed b) bytes) = n := by
  have low := n.le_toInt
  have high := n.toInt_lt
  let place (i : Nat) : UInt8 := UInt8.ofNat ((n.toInt % 2 ^ 32).toNat / 256 ^ i)
  obtain ⟨k, first⟩ := exists_digit_eq signed (place 3)
  refine ⟨place 3, [place 2, place 1, place 0], rfl, ?_⟩
  have value : numeral (digit signed (place 3)) [place 2, place 1, place 0] =
      n.toInt % 2 ^ 32 + 2 ^ 32 * k := by
    simp only [numeral_cons, numeral_nil, first, place, UInt8.toNat_ofNat']
    omega
  rw [Int32.ofInt_eq_iff_bmod_eq_toInt, value, Int.bmod_def]
  omega

/-- A word of the constant group, with its byte. -/
inductive ConstantWord where
  | load (signed : Bool) (byte : UInt8)
  | extend (byte : UInt8)
  | reserved (byte : UInt8)
deriving DecidableEq, Repr

namespace ConstantWord

def mnemonic : ConstantWord → String
  | load false _ => "const"
  | load true _ => "sconst"
  | extend _ => "econst"
  | reserved _ => "RES19"

def byte : ConstantWord → UInt8
  | load _ b | extend b | reserved b => b

def row : ConstantWord → Nat
  | load false _ => 0
  | load true _ => 1
  | extend _ => 2
  | reserved _ => 3

def word (c : ConstantWord) : Nat :=
  2048 + 256 * c.row + c.byte.toNat

def result (c : ConstantWord) (cr : Int32) : Int32 :=
  match c with
  | load signed b => Int32.ofInt (digit signed b)
  | extend b => cr * 256 + Int32.ofNat b.toNat
  | reserved _ => cr

/-- The words that load a byte and put other bytes behind it. -/
def spelling (signed : Bool) (first : UInt8) (others : List UInt8) : List ConstantWord :=
  load signed first :: others.map extend

def results (cr : Int32) (words : List ConstantWord) : Int32 :=
  words.foldl (fun cr c => c.result cr) cr

theorem results_extend (lead : Int) (bytes : List UInt8) :
    results (Int32.ofInt lead) (bytes.map extend) = Int32.ofInt (numeral lead bytes) := by
  induction bytes generalizing lead with
  | nil => rw [numeral_nil]; rfl
  | cons b bytes ih =>
    have next : (extend b).result (Int32.ofInt lead) = Int32.ofInt (lead * 256 + b.toNat) := by
      rw [Int32.ofInt_add, Int32.ofInt_mul, Int32.ofInt_eq_ofNat]
      rfl
    have step : results (Int32.ofInt lead) ((b :: bytes).map extend) =
        results ((extend b).result (Int32.ofInt lead)) (bytes.map extend) := rfl
    rw [step, next, ih, numeral_cons]

theorem results_spelling (signed : Bool) (first : UInt8) (others : List UInt8) (cr : Int32) :
    results cr (spelling signed first others) = Int32.ofInt (numeral (digit signed first) others) :=
  results_extend _ _

section encoding

variable (c : ConstantWord)

theorem row_lt : c.row < 4 := by
  unfold row
  split <;> decide

theorem word_group : c.word / 1024 = 2 := by
  have few := c.row_lt
  have small := c.byte.toNat_lt
  unfold word
  omega

theorem rowOf_word : rowOf c.word - 1 = c.row := by
  have few := c.row_lt
  have small := c.byte.toNat_lt
  rw [rowOf, word_group]
  simp only [word]
  omega

theorem word_mod : c.word % 256 = c.byte.toNat := by
  have small := c.byte.toNat_lt
  unfold word
  omega

theorem exists_encoding : ∃ e : Encoding, e.IsFor c.mnemonic [.immediate] ∧ e.slots = [⟨8, 0⟩] ∧
    e.freeBits = 8 ∧ e.opcode.toNat = 8 + c.row := by
  rcases c with ⟨_ | _, _⟩ | _ | _
  · exact ⟨⟨"const", 0b1000, 4, number 8⟩, ⟨by decide, rfl, rfl⟩, rfl, rfl, rfl⟩
  · exact ⟨⟨"sconst", 0b1001, 4, number 8⟩, ⟨by decide, rfl, rfl⟩, rfl, rfl, rfl⟩
  · exact ⟨⟨"econst", 0b1010, 4, number 8⟩, ⟨by decide, rfl, rfl⟩, rfl, rfl, rfl⟩
  · exact ⟨⟨"RES19", 0b1011, 4, number 8⟩, ⟨by decide, rfl, rfl⟩, rfl, rfl, rfl⟩

theorem exists_encodeLine_eq {line : List Char}
    (reads : Reads line c.mnemonic [⟨.immediate, c.byte.toNat⟩]) :
    ∃ word, encodeLine line = .ok word ∧ word.toNat = c.word := by
  have small := c.byte.toNat_lt
  obtain ⟨e, isFor, slots, bits, opcode⟩ := c.exists_encoding
  have fits : ∀ slot ∈ e.slots.zip [(c.byte.toNat : Int)], slot.1.Takes slot.2 := by
    rw [slots]
    intro slot mem
    cases List.mem_singleton.1 mem
    simp only [Field.Takes]
    omega
  have encoded : assemble c.mnemonic [⟨.immediate, c.byte.toNat⟩] = e.encode [(c.byte.toNat : Int)] :=
    assemble_of_isFor isFor
  rw [reads.encodeLine_eq, encoded]
  rcases Encoding.encode_cases isFor.mem [(c.byte.toNat : Int)] with ⟨-, word, done⟩ | failed
  · have isWord := Encoding.isWord_of_encode isFor.mem done
    have top := isWord.top
    have bottom := isWord.slots (⟨8, 0⟩, (c.byte.toNat : Int)) (by simp [slots])
    rw [bits, opcode] at top
    rw [read_bottom] at bottom
    have low : word.toNat % 256 = ((c.byte.toNat : Int) % 256).toNat := bottom
    refine ⟨word, done, ?_⟩
    rw [ConstantWord.word]
    omega
  · obtain ⟨before, slot, after, split, -, bad, -⟩ := failed
    exact absurd (fits slot (split ▸ List.mem_append_cons_self)) bad

end encoding

/-- The sign of a byte as the row takes it: from 128 on it takes 256 away. -/
theorem signed_eq (b : UInt8) :
    (if 128 ≤ Int32.ofNat b.toNat then Int32.ofNat b.toNat - 256 else Int32.ofNat b.toNat) =
      Int32.ofInt (digit true b) := by
  have small := b.toNat_lt
  have half : 128 ≤ Int32.ofNat b.toNat ↔ ¬ 2 * b.toNat < 256 := by
    rw [Int32.le_iff_toInt_le, Int32.toInt_ofNat_of_lt (by omega)]
    change (128 : Int) ≤ _ ↔ _
    omega
  rw [digit_signed]
  by_cases low : 2 * b.toNat < 256
  · rw [if_neg fun high => half.1 high low, if_pos low, Int32.ofInt_eq_ofNat]
  · rw [if_pos (half.2 low), if_neg low, Int32.ofInt_sub, Int32.ofInt_eq_ofNat]
    rfl

theorem effects_signed (s : State) {n : Int32}
    (signed : (if 128 ≤ s.scores ⟨"const_imm"⟩ then s.scores ⟨"const_imm"⟩ - 256
      else s.scores ⟨"const_imm"⟩) = n) :
    effects (stagesAt constantRows 1) s = (s.setScore ⟨"const_imm"⟩ n).setScore ⟨"cr"⟩ n := by
  have holds : Test.holds ⟨⟨"const_imm"⟩, .ge, .literal 128, false⟩ s =
      decide (128 ≤ s.scores ⟨"const_imm"⟩) := Bool.bne_false _
  have sign : effects [.guarded ⟨⟨"const_imm"⟩, .ge, .literal 128, false⟩
      (.operate ⟨"const_imm"⟩ .sub (.literal 256))] s = s.setScore ⟨"const_imm"⟩ n := by
    simp only [effects, List.foldl_cons, List.foldl_nil, Stage.effect, holds, decide_eq_true_eq,
      Deed.effect, ScoreOp.apply, State.value, ← signed]
    split
    · rfl
    · rw [State.setScore, Function.update_eq_self]
  have rows : stagesAt constantRows 1 = [.guarded ⟨⟨"const_imm"⟩, .ge, .literal 128, false⟩
      (.operate ⟨"const_imm"⟩ .sub (.literal 256))] ++
        [.always (.operate ⟨"cr"⟩ .set (.variable ⟨"const_imm"⟩))] := rfl
  rw [rows, effects_append, sign, effects_operate]
  simp only [ScoreOp.apply, State.value, State.scores_setScore_self]

theorem effects_extend (s : State) :
    effects (stagesAt constantRows 2) s =
      s.setScore ⟨"cr"⟩ (s.scores ⟨"cr"⟩ * 256 + s.scores ⟨"const_imm"⟩) := by
  have rows : stagesAt constantRows 2 = [.always (.operate ⟨"cr"⟩ .mul (.literal 256))] ++
      [.always (.operate ⟨"cr"⟩ .add (.variable ⟨"const_imm"⟩))] := rfl
  have byte (n : Int32) : (s.setScore ⟨"cr"⟩ n).scores ⟨"const_imm"⟩ = s.scores ⟨"const_imm"⟩ :=
    State.scores_setScore_of_ne _ (by decide) _
  have twice (m n : Int32) : (s.setScore ⟨"cr"⟩ m).setScore ⟨"cr"⟩ n = s.setScore ⟨"cr"⟩ n := by
    simp only [State.setScore, Function.update_idem]
  rw [rows, effects_append, effects_operate, effects_operate]
  simp only [ScoreOp.apply, State.value, State.scores_setScore_self, byte, twice]

theorem sameBut_effects (c : ConstantWord) {s : State}
    (byte : s.scores ⟨"const_imm"⟩ = Int32.ofNat c.byte.toNat) :
    (s.setScore ⟨"cr"⟩ (c.result (s.scores ⟨"cr"⟩))).SameBut decoded
      (effects (stagesAt constantRows c.row) s) := by
  rcases c with ⟨_ | _, b⟩ | b | b
  · have loads : effects (stagesAt constantRows 0) s = s.setScore ⟨"cr"⟩ (s.scores ⟨"const_imm"⟩) := rfl
    rw [row, loads, byte, result, digit, if_neg (by decide), Int32.ofInt_eq_ofNat]
    exact .refl _ _
  · rw [row, effects_signed s (byte ▸ signed_eq b)]
    exact ((State.SameBut.refl _ _).setOne (by decide) _).setScore _ _
  · rw [row, effects_extend, byte]
    exact .refl _ _
  · have idle : effects (stagesAt constantRows 3) s = s := rfl
    have same : s.setScore ⟨"cr"⟩ (s.scores ⟨"cr"⟩) = s := by
      rw [State.setScore, Function.update_eq_self]
    rw [row, idle, result, same]
    exact .refl _ _

end ConstantWord

namespace State

variable {s t u : State} {values : List Variable}

/-- The state has gone on by some constant words: the constant register has a new number, and whatever
else a program works with is as it was. -/
structure Loads (s : State) (n : Int32) (count : Nat) (t : State) : Prop where
  constant : t.scores ⟨"cr"⟩ = n
  instruction : t.scores ⟨"ip"⟩ = s.scores ⟨"ip"⟩ + Int32.ofNat count
  settled : t.scores ⟨"jumped"⟩ = 0
  bystanders : ∀ v ∈ bystanders, t.scores v = s.scores v
  stack : t.scores ⟨"sp"⟩ = s.scores ⟨"sp"⟩ ∧ t.scores ⟨"bp"⟩ = s.scores ⟨"bp"⟩
  cells : t.cells = s.cells

theorem Loads.trans {m n : Int32} {i j : Nat} (h : s.Loads m i t) (h' : t.Loads n j u) :
    s.Loads n (i + j) u where
  constant := h'.constant
  instruction := by rw [h'.instruction, h.instruction, Int32.ofNat_add, Int32.add_assoc]
  settled := h'.settled
  bystanders v mem := (h'.bystanders v mem).trans (h.bystanders v mem)
  stack := ⟨h'.stack.1.trans h.stack.1, h'.stack.2.trans h.stack.2⟩
  cells := h'.cells.trans h.cells

theorem scores_selected_byte (values : List Variable) (group : s.word / 1024 = 2) :
    (s.selected values).scores ⟨"const_imm"⟩ = Int32.ofNat (s.word % 256) := by
  have byte : (selectConstant s.word (s.fetch.decode s.word)).scores ⟨"const_imm"⟩ =
      Int32.ofNat (s.word % 256) := by
    rw [selectConstant, scores_setScore_of_ne _ (by decide), scores_setScore_self]
  rw [selected, group]
  exact byte

theorem sameBut_next_constant (values : List Variable) (still : s.scores ⟨"jumped"⟩ = 0)
    {c : ConstantWord} (fetched : s.word = c.word) :
    ((s.setScore ⟨"cr"⟩ (c.result (s.scores ⟨"cr"⟩))).setScore ⟨"ip"⟩ (s.scores ⟨"ip"⟩ + 1)).SameBut
      decoded (s.next values) := by
  have decodes := s.sameBut_selected values
  have byte := scores_selected_byte values (fetched ▸ c.word_group)
  rw [fetched, c.word_mod] at byte
  have runs := c.sameBut_effects byte
  rw [decodes.scores _ (by decide)] at runs
  have same := (decodes.setScore ⟨"cr"⟩ (c.result (s.scores ⟨"cr"⟩))).trans runs
  have mark : (effects (stagesAt constantRows c.row) (s.selected values)).scores ⟨"jumped"⟩ = 0 := by
    rw [same.scores _ (by decide), scores_setScore_of_ne _ (by decide), still]
  have address : (effects (stagesAt constantRows c.row) (s.selected values)).scores ⟨"ip"⟩ =
      s.scores ⟨"ip"⟩ := by
    rw [same.scores _ (by decide), scores_setScore_of_ne _ (by decide)]
  rw [next_eq, fetched, c.word_group, c.rowOf_word]
  change SameBut _ _ (effects advanceStages (effects (stagesAt constantRows c.row) (s.selected values)))
  rw [effects_advance, if_pos mark, address]
  exact same.setScore _ _

theorem loads_next (values : List Variable) (still : s.scores ⟨"jumped"⟩ = 0) {c : ConstantWord}
    (fetched : s.word = c.word) : s.Loads (c.result (s.scores ⟨"cr"⟩)) 1 (s.next values) := by
  have same := sameBut_next_constant values still fetched
  have kept {v : Variable} (apart : v ∉ decoded ∧ v ≠ ⟨"cr"⟩ ∧ v ≠ ⟨"ip"⟩) :
      (s.next values).scores v = s.scores v := by
    rw [same.scores v apart.1, scores_setScore_of_ne _ apart.2.2, scores_setScore_of_ne _ apart.2.1]
  have apart : ∀ v ∈ Machine.bystanders, v ∉ decoded ∧ v ≠ ⟨"cr"⟩ ∧ v ≠ ⟨"ip"⟩ := by decide
  refine ⟨?_, ?_, ?_, fun v mem => kept (apart v mem), ⟨kept (by decide), kept (by decide)⟩, same.cells⟩
  · rw [same.scores _ (by decide), scores_setScore_of_ne _ (by decide), scores_setScore_self]
  · rw [same.scores _ (by decide), scores_setScore_self]
    rfl
  · rw [kept (by decide), still]

/-- The words stand one behind the other, the first one at the instruction register. -/
def Faces (s : State) (words : List ConstantWord) : Prop :=
  ∀ i c, words[i]? = some c →
    (s.cells (Word.ofScore (s.scores ⟨"ip"⟩ + Int32.ofNat i))).val = c.word

theorem Faces.word_eq {c : ConstantWord} {words : List ConstantWord} (h : s.Faces (c :: words)) :
    s.word = c.word := by
  have here : s.scores ⟨"ip"⟩ + Int32.ofNat 0 = s.scores ⟨"ip"⟩ := Int32.add_zero _
  have first := h 0 c rfl
  rwa [here] at first

theorem Faces.tail {c : ConstantWord} {words : List ConstantWord} {n : Int32}
    (h : s.Faces (c :: words)) (loads : s.Loads n 1 t) : t.Faces words := by
  intro i d here
  have later := h (i + 1) d here
  rw [loads.cells, loads.instruction, Int32.add_assoc, ← Int32.ofNat_add, Nat.add_comm 1 i]
  exact later

end State

def cyclesFrom (limit : Nat) (w : World) : (cycles : Nat) → Option World
  | 0 => some w
  | cycles + 1 => (World.runChain limit ⟨0, 0, 1⟩ w).bind (cyclesFrom limit · cycles)

namespace Ground

variable {G : Ground} {limit : Nat} {w w' : World} {s : State}

/-- Runs of the primary chain have executed the words in this order. Other things may have happened
between two of them, if they have left the constant register alone. -/
inductive Executes (G : Ground) (limit : Nat) : List ConstantWord → World → World → Prop
  | nil (w : World) : Executes G limit [] w w
  | cons {c : ConstantWord} {words : List ConstantWord} {w w' v u : World} {s : State}
      (shows : G.Shows w s) (still : s.scores ⟨"jumped"⟩ = 0) (fetched : s.word = c.word)
      (ran : World.runChain limit ⟨0, 0, 1⟩ w = some w') (kept : v.score ⟨"cr"⟩ = w'.score ⟨"cr"⟩)
      (rest : Executes G limit words v u) : Executes G limit (c :: words) w u

theorem Shows.exists_loads (printCards : ∀ card ∈ G.cards, IsPrintCard card)
    (enough : G.parts.primary.length < limit) (h : G.Shows w s) (still : s.scores ⟨"jumped"⟩ = 0)
    {c : ConstantWord} (fetched : s.word = c.word) :
    ∃ w' t, World.runChain limit ⟨0, 0, 1⟩ w = some w' ∧ G.Shows w' t ∧
      s.Loads (c.result (s.scores ⟨"cr"⟩)) 1 t := by
  obtain ⟨values, cards, displays⟩ := exists_values printCards
  obtain ⟨w', ran, shows⟩ := runs_cycle cards displays h enough
  exact ⟨w', _, ran, shows, State.loads_next values still fetched⟩

theorem Shows.exists_results (printCards : ∀ card ∈ G.cards, IsPrintCard card)
    (enough : G.parts.primary.length < limit) {words : List ConstantWord} (h : G.Shows w s)
    (still : s.scores ⟨"jumped"⟩ = 0) (faces : s.Faces words) :
    ∃ w' t, cyclesFrom limit w words.length = some w' ∧ G.Executes limit words w w' ∧ G.Shows w' t ∧
      s.Loads (ConstantWord.results (s.scores ⟨"cr"⟩) words) words.length t := by
  induction words generalizing w s with
  | nil =>
    exact ⟨w, s, rfl, .nil w, h, rfl, (Int32.add_zero _).symm, still, fun _ _ => rfl, ⟨rfl, rfl⟩, rfl⟩
  | cons c words ih =>
    obtain ⟨v, u, ran, shows, first⟩ := h.exists_loads printCards enough still faces.word_eq
    obtain ⟨w', t, rest, executed, shows', others⟩ := ih shows first.settled (faces.tail first)
    rw [first.constant] at others
    refine ⟨w', t, ?_, .cons h still faces.word_eq ran rfl executed, shows', ?_⟩
    · rw [List.length_cons, cyclesFrom, ran, Option.bind_some, rest]
    · rw [List.length_cons, Nat.add_comm]
      exact first.trans others

/-- Executed words make of the constant register what they are meant to, whatever happens between them. -/
theorem Executes.score_eq (printCards : ∀ card ∈ G.cards, IsPrintCard card)
    (enough : G.parts.primary.length < limit) {words : List ConstantWord}
    (h : G.Executes limit words w w') :
    w'.score ⟨"cr"⟩ = ConstantWord.results (w.score ⟨"cr"⟩) words := by
  induction h with
  | nil w => rfl
  | @cons c words w w' v u s shows still fetched ran kept rest ih =>
    obtain ⟨w'', t, ran', shows', loads⟩ := shows.exists_loads printCards enough still fetched
    obtain rfl : w' = w'' := Option.some.inj (ran.symm.trans ran')
    have next : w'.score ⟨"cr"⟩ = c.result (w.score ⟨"cr"⟩) := by
      rw [shows'.scores _ (by decide), loads.constant, shows.scores _ (by decide)]
    rw [ih, kept, next]
    rfl

end Ground

/-- Constant words build numbers. Bytes that are loaded and put behind each other make the number that
they spell in base 256, with a sign if the first one is loaded with its sign, reduced to 32 bits; and four
bytes are enough for every score. No constant word changes a general or a scratch register, a flag, the
stack or the memory. -/
theorem constants_build_numbers :
    (∀ (c : ConstantWord) (line : List Char), Reads line c.mnemonic [⟨.immediate, c.byte.toNat⟩] →
      ∃ word, encodeLine line = .ok word ∧ word.toNat = c.word) ∧
    (∀ (G : Ground) (limit : Nat), (∀ card ∈ G.cards, IsPrintCard card) →
      G.parts.primary.length < limit →
      (∀ (w : World) (s : State), G.Shows w s → s.scores ⟨"jumped"⟩ = 0 →
        (∀ c : ConstantWord, s.word = c.word →
          ∃ w' t, World.runChain limit ⟨0, 0, 1⟩ w = some w' ∧ G.Shows w' t ∧
            s.Loads (c.result (s.scores ⟨"cr"⟩)) 1 t) ∧
        ∀ (signed : Bool) (first : UInt8) (others : List UInt8),
          s.Faces (ConstantWord.spelling signed first others) →
          ∃ w' t, cyclesFrom limit w (others.length + 1) = some w' ∧
            G.Executes limit (ConstantWord.spelling signed first others) w w' ∧ G.Shows w' t ∧
            s.Loads (Int32.ofInt (numeral (digit signed first) others)) (others.length + 1) t) ∧
      ∀ (signed : Bool) (first : UInt8) (others : List UInt8) (w w' : World),
        G.Executes limit (ConstantWord.spelling signed first others) w w' →
        w'.score ⟨"cr"⟩ = Int32.ofInt (numeral (digit signed first) others)) ∧
    ∀ (signed : Bool) (n : Int32), ∃ first others, others.length = 3 ∧
      Int32.ofInt (numeral (digit signed first) others) = n := by
  refine ⟨fun c line => c.exists_encodeLine_eq, fun G limit printCards enough =>
    ⟨fun w s shows still => ⟨fun c => shows.exists_loads printCards enough still,
      fun signed first others faces => ?_⟩, fun signed first others w w' executes => ?_⟩, exists_numeral_eq⟩
  · have ran := shows.exists_results printCards enough still faces
    have length : (ConstantWord.spelling signed first others).length = others.length + 1 := by
      rw [ConstantWord.spelling, List.length_cons, List.length_map]
    rwa [ConstantWord.results_spelling, length] at ran
  · rw [executes.score_eq printCards enough, ConstantWord.results_spelling]

def spelledState : State :=
  ((Ground.stateOf [(⟨"cr"⟩, 7)]).write 0 2559).write 1 2562

theorem constants_build_numbers_negative :
    ∃ (G : Ground) (limit : Nat) (w v w' : World) (t : State),
      encodeLine "sconst 255".toList = .ok 2559 ∧ encodeLine "econst 2".toList = .ok 2562 ∧
      G.Shows w spelledState ∧ spelledState.scores ⟨"cr"⟩ = 7 ∧
      World.runChain limit ⟨0, 0, 1⟩ w = some v ∧ v.score ⟨"cr"⟩ = -1 ∧
      cyclesFrom limit w 2 = some w' ∧ G.Shows w' t ∧ t.scores ⟨"cr"⟩ = -254 ∧
      G.Executes limit (ConstantWord.spelling true 255 [2]) w w' ∧ w'.score ⟨"cr"⟩ = -254 ∧
      ∃ first others, others.length = 3 ∧ Int32.ofInt (numeral (digit true first) others) = -254 := by
  obtain ⟨encodes, executes, reaches⟩ := constants_build_numbers
  have signed : Reads "sconst 255".toList "sconst" [⟨.immediate, 255⟩] :=
    ⟨"sconst".toList, ["255".toList], by decide +kernel, rfl, by decide +kernel⟩
  have behind : Reads "econst 2".toList "econst" [⟨.immediate, 2⟩] :=
    ⟨"econst".toList, ["2".toList], by decide +kernel, rfl, by decide +kernel⟩
  obtain ⟨word₁, encoded₁, number₁⟩ := encodes (.load true 255) _ signed
  obtain ⟨word₂, encoded₂, number₂⟩ := encodes (.extend 2) _ behind
  obtain rfl : word₁ = 2559 := UInt16.toNat_inj.1 number₁
  obtain rfl : word₂ = 2562 := UInt16.toNat_inj.1 number₂
  obtain ⟨G, cards, constants⟩ := Ground.exists_bare
  have shows : G.Shows (G.picture spelledState) spelledState :=
    Ground.shows_stateOf constants (by decide) (by decide) rfl
  have faces : spelledState.Faces (ConstantWord.spelling true 255 [2]) := by
    intro i c here
    match i with
    | 0 => cases here; decide
    | 1 => cases here; decide
    | _ + 2 => cases here
  obtain ⟨runs, spells⟩ := executes G _ (fun card mem => by simp [cards] at mem) (Nat.lt_succ_self _)
  obtain ⟨one, all⟩ := runs _ _ shows (by decide)
  obtain ⟨v, u, ran, shows', loads⟩ := one (.load true 255) faces.word_eq
  obtain ⟨w', t, ran', executed, shows'', loads'⟩ := all true 255 [2] faces
  refine ⟨G, _, _, v, w', t, encoded₁, encoded₂, shows, by decide, ran, ?_, ran', shows'', ?_, executed,
    ?_, reaches true (-254)⟩
  · rw [shows'.scores _ (by decide), loads.constant]
    decide
  · rw [loads'.constant]
    decide
  · rw [spells _ _ _ _ _ executed]
    decide

end Machine

end BlockComputer
