import BlockComputer.Proofs.Control.Comparison
import BlockComputer.Proofs.Listing.Reading
import Mathlib.Tactic.Ring

/-!
The operands of commands read back from single words.

A number, a coordinate, an operator and a range are read as what they were. Of an entity its selector says
the tag alone, and of a scale the digits may be spread otherwise while the value stays.
-/

namespace BlockComputer

def ScoreOp.read? : String → Option ScoreOp
  | "=" => some .set
  | "+=" => some .add
  | "-=" => some .sub
  | "*=" => some .mul
  | "/=" => some .div
  | "%=" => some .mod
  | "<" => some .min
  | ">" => some .max
  | "><" => some .swap
  | _ => none

def NumberType.read? : String → Option NumberType
  | "byte" => some .byte
  | "short" => some .short
  | "int" => some .int
  | "long" => some .long
  | "float" => some .float
  | "double" => some .double
  | _ => none

def Text.word32? (text : List Char) : Option Int32 :=
  ((Text.integer? text).filter fun n => -2 ^ 31 ≤ n ∧ n < 2 ^ 31).map Int32.ofInt

namespace Axis

def offset? : List Char → Option Axis
  | [] => some ⟨0, true⟩
  | offset => (Text.word32? offset).map (⟨·, true⟩)

def read? (word : String) : Option Axis :=
  match word.toList with
  | '~' :: offset => offset? offset
  | number => (Text.word32? number).map (⟨·, false⟩)

def readExact? (word : String) : Option Axis :=
  match word.toList with
  | '~' :: offset => offset? offset
  | number => ((number.dropSuffix? ".0".toList).bind Text.word32?).map (⟨·, false⟩)

end Axis

def Position.read? (x y z : String) : Option Position := do
  return ⟨← Axis.read? x, ← Axis.read? y, ← Axis.read? z⟩

def Position.readExact? (x y z : String) : Option Position := do
  return ⟨← Axis.readExact? x, ← Axis.readExact? y, ← Axis.readExact? z⟩

def Text.between? (opening : String) (mark : Char) (word : String) : Option String :=
  (word.toList.dropPrefix? opening.toList).map fun rest => String.ofList (rest.takeWhile (· != mark))

/-- The entity that a selector selects; of its kind the selector says nothing. -/
def Entity.read? (selector : String) : Option Entity :=
  (Text.between? "@e[tag=" ',' selector).map (⟨"", ·⟩)

def Slot.index? (path : String) : Option Nat :=
  (Text.between? "Items[" ']' path).bind (Text.natural? ·.toList)

def Filling.read? (word : String) : Option Filling :=
  if "minecraft:chain_command_block".toList.isPrefixOf word.toList then some .idleUnit
  else if "minecraft:barrel".toList.isPrefixOf word.toList then some .barrel
  else none

namespace Decimal

def magnitude? (text : List Char) : Option Decimal :=
  let fraction := (text.dropWhile (· != '.')).tail
  (Text.natural? (text.takeWhile (· != '.') ++ fraction)).map (⟨false, ·, -fraction.length⟩)

def read? (word : String) : Option Decimal :=
  match word.toList with
  | '-' :: rest => (magnitude? rest).map ({ · with negative := true })
  | text => magnitude? text

end Decimal

def Range.read? (word : String) : Option Range :=
  (Bounds.read? word.toList).bind fun
    | ⟨none, none⟩ => none
    | ⟨none, some high⟩ => some (.atMost high)
    | ⟨some low, none⟩ => some (.atLeast low)
    | ⟨some low, some high⟩ => some (.between low high)

def Text.nameEnds : List Char :=
  [' ', ',', Text.Quoted.single, Text.Quoted.double]

def Text.isName (text : String) : Bool :=
  text.toList.all (· ∉ Text.nameEnds)

theorem Text.notMem_of_isName {name : String} (plain : isName name) {mark : Char}
    (known : mark ∈ nameEnds) : mark ∉ name.toList :=
  fun mem => of_decide_eq_true (List.all_eq_true.1 plain mark mem) known

theorem Text.isName_append {a b : String} (left : isName a) (right : isName b) : isName (a ++ b) := by
  rw [isName, String.toList_append, List.all_append, Bool.and_eq_true]
  exact ⟨left, right⟩

theorem Text.isName_int (n : Int) : isName (toString n) := by
  refine List.all_eq_true.2 fun c mem => decide_eq_true fun known => ?_
  have digit := isDigit_or_minus_of_mem_repr mem
  simp only [nameEnds, List.mem_cons, List.not_mem_nil, or_false] at known
  rcases known with rfl | rfl | rfl | rfl <;> exact absurd digit (by decide)

theorem Text.isName_nat (n : Nat) : isName (toString n) :=
  isName_int n

def AreNamed (vs : List Variable) : Prop :=
  ∀ v ∈ vs, Text.isName v.name

instance (vs : List Variable) : Decidable (AreNamed vs) :=
  inferInstanceAs (Decidable (∀ v ∈ vs, _))

theorem Slot.isName_path (s : Slot) : Text.isName s.path :=
  Text.isName_append (Text.isName_append (by decide) (Text.isName_nat s.index)) (by decide)

def Position.words (p : Position) : List String :=
  [p.x.render, p.y.render, p.z.render]

def Position.exactWords (p : Position) : List String :=
  [p.x.renderExact, p.y.renderExact, p.z.renderExact]

namespace Text

def IsSolid (word : String) : Prop :=
  ' ' ∉ word.toList

instance (word : String) : Decidable (IsSolid word) :=
  inferInstanceAs (Decidable (¬ _))

theorem IsSolid.append {a b : String} (left : IsSolid a) (right : IsSolid b) : IsSolid (a ++ b) := by
  rw [IsSolid, String.toList_append, List.mem_append]
  exact fun mem => mem.elim left right

theorem isSolid_of_isName {name : String} (plain : isName name) : IsSolid name :=
  notMem_of_isName plain (by decide)

theorem isSolid_int (n : Int) : IsSolid (toString n) :=
  isSolid_of_isName (isName_int n)

theorem isSolid_nat (n : Nat) : IsSolid (toString n) :=
  isSolid_of_isName (isName_nat n)

theorem integer?_toString (n : Int) : integer? (toString n).toList = some n :=
  BlockRecord.integer?_repr n

theorem natural?_toString (n : Nat) : natural? (toString n).toList = some n :=
  natural?_eq_some_iff.2 (BlockRecord.isDigits_repr n)

theorem word32?_toString (n : Int32) : word32? (toString n.toInt).toList = some n := by
  have low := n.le_toInt
  have high := n.toInt_lt
  rw [word32?, integer?_toString, Option.filter_some, if_pos (by simp; omega), Option.map_some,
    Int32.ofInt_toInt]

theorem between?_append (opening : String) {mark : Char} {name : String} (apart : mark ∉ name.toList)
    (rest : List Char) {word : String}
    (text : word.toList = opening.toList ++ (name.toList ++ mark :: rest)) :
    between? opening mark word = some name := by
  have stays : ∀ c ∈ name.toList, (c != mark) = true :=
    fun c mem => bne_iff_ne.2 fun eq => apart (eq ▸ mem)
  rw [between?, List.dropPrefix?_eq_some_iff.2 ⟨_, text, BEq.rfl⟩, Option.map_some,
    List.takeWhile_append_of_pos stays]
  simp

end Text

namespace Axis

theorem isSolid_render (a : Axis) : Text.IsSolid a.render := by
  unfold render
  split
  · split
    · decide
    · exact Text.IsSolid.append (by decide) (Text.isSolid_int _)
  · exact Text.isSolid_int _

theorem isSolid_renderExact (a : Axis) : Text.IsSolid a.renderExact := by
  unfold renderExact
  split
  · exact a.isSolid_render
  · exact Text.IsSolid.append (Text.isSolid_int _) (by decide)

theorem offset?_toString (n : Int32) : offset? (toString n.toInt).toList = some ⟨n, true⟩ := by
  obtain ⟨c, rest, text⟩ := List.exists_cons_of_ne_nil (Bounds.repr_ne_nil n.toInt)
  have number := Text.word32?_toString n
  rw [show (toString n.toInt).toList = c :: rest from text] at number ⊢
  rw [offset?, number, Option.map_some]
  exact List.cons_ne_nil _ _

theorem toString_ne_offset (n : Int) (rest offset : List Char) :
    (toString n).toList ++ rest ≠ '~' :: offset := by
  intro same
  have first : '~' ∈ (toString n).toList := by
    cases text : (toString n).toList with
    | nil => exact absurd text (Bounds.repr_ne_nil n)
    | cons c others =>
      rw [text, List.cons_append, List.cons.injEq] at same
      exact same.1 ▸ List.mem_cons_self
  exact absurd (isDigit_or_minus_of_mem_repr first) (by decide)

theorem exists_offset (n : Int32) : ∃ offset, (render ⟨n, true⟩).toList = '~' :: offset ∧
    offset? offset = some ⟨n, true⟩ := by
  by_cases zero : n = 0
  · rw [zero]
    exact ⟨[], rfl, rfl⟩
  · refine ⟨(toString n.toInt).toList, ?_, offset?_toString n⟩
    rw [render, if_pos rfl, if_neg zero]
    exact String.toList_append

theorem read?_render (a : Axis) : read? a.render = some a := by
  obtain ⟨n, relative⟩ := a
  cases relative with
  | false =>
    have other := toString_ne_offset n.toInt []
    rw [List.append_nil] at other
    change read? (toString n.toInt) = _
    unfold read?
    split
    · exact absurd ‹_› (other _)
    · rw [Text.word32?_toString, Option.map_some]
  | true =>
    obtain ⟨offset, text, read⟩ := exists_offset n
    rw [read?, text]
    exact read

theorem readExact?_renderExact (a : Axis) : readExact? a.renderExact = some a := by
  obtain ⟨n, relative⟩ := a
  cases relative with
  | false =>
    have text : (renderExact ⟨n, false⟩).toList = (toString n.toInt).toList ++ ".0".toList :=
      String.toList_append
    unfold readExact?
    rw [text]
    split
    · exact absurd ‹_› (toString_ne_offset _ _ _)
    · rw [List.dropSuffix?_eq_some_iff.2 ⟨_, rfl, BEq.rfl⟩, Option.bind_some, Text.word32?_toString,
        Option.map_some]
  | true =>
    obtain ⟨offset, text, read⟩ := exists_offset n
    rw [readExact?, renderExact, if_pos rfl, text]
    exact read

end Axis

theorem Position.read?_words (p : Position) :
    read? p.x.render p.y.render p.z.render = some p := by
  rw [read?, p.x.read?_render, p.y.read?_render, p.z.read?_render]
  rfl

theorem Position.readExact?_words (p : Position) :
    readExact? p.x.renderExact p.y.renderExact p.z.renderExact = some p := by
  rw [readExact?, p.x.readExact?_renderExact, p.y.readExact?_renderExact, p.z.readExact?_renderExact]
  rfl

theorem ScoreOp.read?_symbol (op : ScoreOp) : read? op.symbol = some op := by
  cases op <;> rfl

theorem NumberType.read?_symbol (t : NumberType) : read? t.symbol = some t := by
  cases t <;> rfl

theorem Filling.read?_render (f : Filling) : read? f.render = some f := by
  cases f <;> decide +kernel

theorem Range.read?_text (r : Range) : read? r.render = some r := by
  rw [read?, r.read?_render, Option.bind_some]
  cases r <;> rfl

theorem Entity.read?_selector {e : Entity} (name : Text.isName e.tag) :
    read? e.selector = some ⟨"", e.tag⟩ := by
  have apart : ',' ∉ e.tag.toList := Text.notMem_of_isName name (by decide)
  rw [read?, Text.between?_append "@e[tag=" apart "limit=1]".toList, Option.map_some]
  change ("@e[tag=" ++ e.tag ++ ",limit=1]").toList = _
  simp

theorem Slot.index?_path (s : Slot) : index? s.path = some s.index := by
  have apart : ']' ∉ (toString s.index).toList :=
    fun mem => absurd (isDigit_or_minus_of_mem_repr (n := s.index) mem) (by decide)
  have path : s.path.toList = "Items[".toList ++ ((toString s.index).toList ++ ']' :: ".Count".toList) := by
    change ("Items[" ++ toString s.index ++ "].Count").toList = _
    simp
  rw [index?, Text.between?_append _ apart _ path, Option.bind_some, Text.natural?_toString]

namespace Decimal

def parts (d : Decimal) : List Char × List Char :=
  let digits := (toString d.digits).toList
  if 0 ≤ d.exponent then (digits ++ List.replicate d.exponent.toNat '0', [])
  else
    let places := (-d.exponent).toNat
    let filled := List.replicate (places + 1 - digits.length) '0' ++ digits
    (filled.take (filled.length - places), filled.drop (filled.length - places))

theorem isDigits_replicate_append {digits : List Char} (h : Text.IsDigits digits) (k : Nat) :
    Text.IsDigits (List.replicate k '0' ++ digits) :=
  ⟨List.append_ne_nil_of_right_ne_nil _ h.1,
    List.forall_mem_append.2 ⟨fun _ mem => List.eq_of_mem_replicate mem ▸ rfl, h.2⟩⟩

/-- Without the point the digits are a number, whose last digits stand behind the point. -/
theorem parts_spec (d : Decimal) : d.parts.1 ≠ [] ∧ Text.IsDigits (d.parts.1 ++ d.parts.2) ∧
    (Nat.ofDigitChars 10 (d.parts.1 ++ d.parts.2) 0 : ℚ) * (10 : ℚ) ^ (-(d.parts.2.length : Int)) =
      d.digits * (10 : ℚ) ^ d.exponent := by
  obtain ⟨digits, number⟩ := BlockRecord.isDigits_repr d.digits
  unfold parts
  by_cases whole : 0 ≤ d.exponent
  · obtain ⟨e, exponent⟩ := Int.eq_ofNat_of_zero_le whole
    simp only [exponent, Int.natCast_nonneg, if_true, List.append_nil, Int.toNat_natCast, List.length_nil]
    refine ⟨List.append_ne_nil_of_left_ne_nil digits.1 _, ⟨List.append_ne_nil_of_left_ne_nil digits.1 _,
      List.forall_mem_append.2 ⟨digits.2, fun _ mem => List.eq_of_mem_replicate mem ▸ rfl⟩⟩, ?_⟩
    change (Nat.ofDigitChars 10 (d.digits.repr.toList ++ _) 0 : ℚ) * _ = _
    rw [Nat.ofDigitChars_append, number, Nat.ofDigitChars_replicate_zero]
    push_cast
    simp
    ring
  · have filled := isDigits_replicate_append digits ((-d.exponent).toNat + 1 - d.digits.repr.toList.length)
    have value : Nat.ofDigitChars 10 (List.replicate ((-d.exponent).toNat + 1 - d.digits.repr.toList.length) '0' ++
        d.digits.repr.toList) 0 = d.digits := by
      rw [Nat.ofDigitChars_append, Nat.ofDigitChars_replicate_zero, Nat.mul_zero, number]
    have long : (-d.exponent).toNat < (List.replicate
        ((-d.exponent).toNat + 1 - d.digits.repr.toList.length) '0' ++ d.digits.repr.toList).length := by
      simp only [List.length_append, List.length_replicate]
      omega
    have exponent : -((-d.exponent).toNat : Int) = d.exponent := by omega
    rw [if_neg whole]
    simp only [show toString d.digits = d.digits.repr from rfl, List.take_append_drop, List.length_drop]
    refine ⟨?_, filled, ?_⟩
    · rw [ne_eq, List.take_eq_nil_iff, not_or]
      exact ⟨by omega, filled.1⟩
    · rw [value, Nat.sub_sub_self (Nat.le_of_lt long), exponent]

theorem toList_render (d : Decimal) : d.render.toList = (if d.negative then ['-'] else []) ++
    (d.parts.1 ++ if 0 ≤ d.exponent then [] else '.' :: d.parts.2) := by
  unfold render parts
  rw [String.toList_append, String.toList_ofList]
  congr 1
  · split <;> rfl
  · split
    · rw [List.append_nil]
    · rfl

theorem magnitude?_parts (d : Decimal) :
    magnitude? (d.parts.1 ++ if 0 ≤ d.exponent then [] else '.' :: d.parts.2) =
      some ⟨false, Nat.ofDigitChars 10 (d.parts.1 ++ d.parts.2) 0, -d.parts.2.length⟩ := by
  obtain ⟨-, digits, -⟩ := d.parts_spec
  have solid : ∀ c ∈ d.parts.1, (c != '.') = true := fun c mem => bne_iff_ne.2 fun point =>
    absurd (digits.2 c (List.mem_append_left _ mem)) (point ▸ by decide)
  have number : Text.natural? (d.parts.1 ++ d.parts.2) = some _ := Text.natural?_eq_some_iff.2 ⟨digits, rfl⟩
  rw [magnitude?, List.takeWhile_append_of_pos solid, List.dropWhile_append_of_pos solid]
  by_cases whole : 0 ≤ d.exponent
  · have nothing : d.parts.2 = [] := by rw [parts, if_pos whole]
    rw [if_pos whole]
    rw [nothing, List.append_nil] at number ⊢
    simp [number]
  · rw [if_neg whole]
    simp [number]

theorem exists_read?_render (d : Decimal) : ∃ d', read? d.render = some d' ∧ d'.value = d.value := by
  obtain ⟨nonempty, digits, value⟩ := d.parts_spec
  have read := d.magnitude?_parts
  unfold read?
  rw [d.toList_render]
  cases negative : d.negative with
  | true =>
    rw [if_pos rfl, List.singleton_append]
    refine ⟨_, (congrArg _ read).trans (Option.map_some ..), ?_⟩
    simp only [Decimal.value, negative, if_true, mul_assoc]
    exact congrArg (-1 * ·) value
  | false =>
    obtain ⟨c, rest, start⟩ := List.exists_cons_of_ne_nil nonempty
    have digit : c.isDigit := digits.2 c (List.mem_append_left _ (start ▸ List.mem_cons_self))
    rw [if_neg Bool.false_ne_true, List.nil_append]
    split
    · rename_i sign
      rw [start, List.cons_append, List.cons.injEq] at sign
      exact absurd (sign.1 ▸ digit) (by decide)
    · refine ⟨_, read, ?_⟩
      simp only [Decimal.value, negative, Bool.false_eq_true, if_false, mul_assoc]
      exact congrArg (1 * ·) value

theorem isSolid_render (d : Decimal) : Text.IsSolid d.render := by
  obtain ⟨-, digits, -⟩ := d.parts_spec
  have front : ' ' ∉ d.parts.1 := fun mem => absurd (digits.2 _ (List.mem_append_left _ mem)) (by decide)
  have behind : ' ' ∉ d.parts.2 := fun mem => absurd (digits.2 _ (List.mem_append_right _ mem)) (by decide)
  rw [Text.IsSolid, toList_render]
  split <;> split <;> simp [front, behind]

end Decimal

section solid

open Text

theorem Entity.isSolid_selector {e : Entity} (name : isName e.tag) : IsSolid e.selector :=
  .append (.append (by decide) (isSolid_of_isName name)) (by decide)

theorem Slot.isSolid_path (s : Slot) : IsSolid s.path :=
  isSolid_of_isName s.isName_path

theorem Range.isSolid_render (r : Range) : IsSolid r.render := by
  cases r with
  | atMost high => exact .append (by decide) (isSolid_int high)
  | atLeast low => exact .append (isSolid_int low) (by decide)
  | between low high =>
    rw [render]
    split
    · exact isSolid_int low
    · exact .append (.append (isSolid_int low) (by decide)) (isSolid_int high)

theorem Position.isSolid_words (p : Position) : ∀ word ∈ p.words, IsSolid word := by
  simp [words, p.x.isSolid_render, p.y.isSolid_render, p.z.isSolid_render]

theorem Position.isSolid_exactWords (p : Position) : ∀ word ∈ p.exactWords, IsSolid word := by
  simp [exactWords, p.x.isSolid_renderExact, p.y.isSolid_renderExact, p.z.isSolid_renderExact]

end solid

end BlockComputer
