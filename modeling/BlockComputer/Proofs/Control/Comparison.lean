import BlockComputer.Proofs.Control.Structured
import BlockComputer.Proofs.Listing.Reading
import BlockComputer.Proofs.Machine.Row

/-!
Comparisons mean what their texts say.

The text of a range is read back as bounds, which are integers of any size: a bound next to a literal at
either end of the 32-bit numbers is not one of these any more. The text of a condition is read back behind
the score that it is about, as a range or as a relation to another score. Both say what the condition
tests, and so the flags of a comparison tell the six relations.
-/

namespace BlockComputer

def Comparison.Relates : Comparison → Int → Int → Prop
  | .lt, a, b => a < b
  | .le, a, b => a ≤ b
  | .eq, a, b => a = b
  | .ge, a, b => a ≥ b
  | .gt, a, b => a > b

theorem Comparison.holds_iff (c : Comparison) (a b : Int32) :
    c.holds a b = true ↔ c.Relates a.toInt b.toInt := by
  cases c with
  | lt | gt => simp [holds, Relates, Int32.lt_iff_toInt_lt]
  | le | ge => simp [holds, Relates, Int32.le_iff_toInt_le]
  | eq => simp [holds, Relates, Int32.toInt_inj]

instance : (c : Comparison) → (a b : Int) → Decidable (c.Relates a b)
  | .lt, a, b => inferInstanceAs (Decidable (a < b))
  | .le, a, b => inferInstanceAs (Decidable (a ≤ b))
  | .eq, a, b => inferInstanceAs (Decidable (a = b))
  | .ge, a, b => inferInstanceAs (Decidable (a ≥ b))
  | .gt, a, b => inferInstanceAs (Decidable (a > b))

theorem Comparison.holds_eq (c : Comparison) (a b : Int32) :
    c.holds a b = decide (c.Relates a.toInt b.toInt) :=
  Bool.eq_iff_iff.2 ((c.holds_iff a b).trans decide_eq_true_iff.symm)

def Comparison.read? : List Char → Option Comparison
  | ['<'] => some .lt
  | ['<', '='] => some .le
  | ['='] => some .eq
  | ['>', '='] => some .ge
  | ['>'] => some .gt
  | _ => none

theorem Comparison.read?_symbol (c : Comparison) : read? c.symbol.toList = some c := by
  cases c <;> rfl

/-- The least and the greatest of some integers; without one of them there is no end on that side. -/
structure Bounds where
  least? : Option Int
  greatest? : Option Int
deriving DecidableEq, Repr

namespace Bounds

def Admits (b : Bounds) (n : Int) : Prop :=
  (∀ low ∈ b.least?, low ≤ n) ∧ ∀ high ∈ b.greatest?, n ≤ high

def splitDots? : List Char → Option (List Char × List Char)
  | [] => none
  | '.' :: '.' :: rest => some ([], rest)
  | c :: rest => (splitDots? rest).map fun parts => (c :: parts.1, parts.2)

def bound? : List Char → Option (Option Int)
  | [] => some none
  | c :: rest => (Text.integer? (c :: rest)).map some

def read? (text : List Char) : Option Bounds :=
  match splitDots? text with
  | none => (Text.integer? text).map fun n => ⟨some n, some n⟩
  | some (low, high) =>
    if low = [] ∧ high = [] then none else do return ⟨← bound? low, ← bound? high⟩

theorem splitDots?_of_notMem {word : List Char} (solid : '.' ∉ word) : splitDots? word = none := by
  induction word with
  | nil => rfl
  | cons c word ih =>
    obtain ⟨other, rest⟩ := List.ne_and_not_mem_of_not_mem_cons solid
    rw [splitDots?, ih rest, Option.map_none]
    exact fun _ same => absurd same.symm other

theorem splitDots?_append {word : List Char} (solid : '.' ∉ word) (rest : List Char) :
    splitDots? (word ++ '.' :: '.' :: rest) = some (word, rest) := by
  induction word with
  | nil => rfl
  | cons c word ih =>
    obtain ⟨other, apart⟩ := List.ne_and_not_mem_of_not_mem_cons solid
    rw [List.cons_append, splitDots?, ih apart, Option.map_some]
    exact fun _ same => absurd same.symm other

theorem dot_notMem_repr (n : Int) : '.' ∉ n.repr.toList :=
  fun mem => absurd (isDigit_or_minus_of_mem_repr mem) (by decide)

theorem repr_ne_nil (n : Int) : n.repr.toList ≠ [] := by
  intro empty
  have number := BlockRecord.integer?_repr n
  rw [empty] at number
  cases number

theorem bound?_repr (n : Int) : bound? n.repr.toList = some (some n) := by
  obtain ⟨c, rest, text⟩ := List.exists_cons_of_ne_nil (repr_ne_nil n)
  rw [text, bound?, ← text, BlockRecord.integer?_repr, Option.map_some]

theorem read?_dots {low high : List Char} (solid : '.' ∉ low) (some : low ≠ [] ∨ high ≠ []) :
    read? (low ++ '.' :: '.' :: high) = do return ⟨← bound? low, ← bound? high⟩ := by
  rw [read?, splitDots?_append solid]
  exact if_neg fun empty => some.elim (· empty.1) (· empty.2)

theorem read?_number (n : Int) : read? n.repr.toList = some ⟨some n, some n⟩ := by
  rw [read?, splitDots?_of_notMem (dot_notMem_repr n)]
  exact congrArg (Option.map fun n => Bounds.mk (some n) (some n)) (BlockRecord.integer?_repr n)

end Bounds

namespace Range

def bounds (r : Range) : Bounds :=
  ⟨r.min?, r.max?⟩

theorem admits_bounds (r : Range) (n : Int) : r.bounds.Admits n ↔ r.contains n = true := by
  cases r <;> simp [bounds, Bounds.Admits, min?, max?, contains]

theorem read?_render (r : Range) : Bounds.read? r.render.toList = some r.bounds := by
  cases r with
  | atMost high =>
    have text : (atMost high).render.toList = [] ++ '.' :: '.' :: high.repr.toList :=
      String.toList_append
    rw [text, Bounds.read?_dots List.not_mem_nil (.inr (Bounds.repr_ne_nil high)), Bounds.bound?_repr]
    rfl
  | atLeast low =>
    have text : (atLeast low).render.toList = low.repr.toList ++ '.' :: '.' :: [] :=
      String.toList_append
    rw [text, Bounds.read?_dots (Bounds.dot_notMem_repr low) (.inl (Bounds.repr_ne_nil low)),
      Bounds.bound?_repr]
    rfl
  | between low high =>
    by_cases same : low = high
    · have text : (between low high).render = high.repr := by
        rw [render, if_pos same, same]
        rfl
      rw [text, Bounds.read?_number, bounds, min?, max?, same]
    · have text : (between low high).render.toList = low.repr.toList ++ '.' :: '.' :: high.repr.toList := by
        rw [render, if_neg same]
        change (low.repr ++ ".." ++ high.repr).toList = _
        simp
      rw [text, Bounds.read?_dots (Bounds.dot_notMem_repr low) (.inl (Bounds.repr_ne_nil low)),
        Bounds.bound?_repr, Bounds.bound?_repr]
      rfl

end Range

/-- What a condition says about a score. -/
inductive Phrase where
  | within (bounds : Bounds)
  | against (relation : Comparison) (other : Variable)
deriving DecidableEq, Repr

def World.value (w : World) : Source → Int32
  | .variable v => w.score v
  | .literal k => k

namespace Phrase

/-- What is said is true of a score with this value. -/
def Holds (w : World) (value : Int32) : Phrase → Prop
  | .within bounds => bounds.Admits value.toInt
  | .against relation other => relation.Relates value.toInt (w.score other).toInt

def parse? (text : List Char) : Option Phrase :=
  let (word, rest) := BlockRecord.splitWord text
  if word = "matches".toList then (Bounds.read? rest).map .within
  else do
    let relation ← Comparison.read? word
    let name ← rest.dropSuffix? " vars".toList
    return .against relation ⟨String.ofList name⟩

def read? (v : Variable) (text : List Char) : Option Phrase :=
  (text.dropPrefix? s!"score {v.render} ".toList).bind parse?

def ofComparison (relation : Comparison) : Source → Phrase
  | .variable u => .against relation u
  | .literal k => .within (relation.range k).bounds

theorem parse?_matches (r : Range) :
    parse? ("matches".toList ++ ' ' :: r.render.toList) = some (.within r.bounds) := by
  rw [parse?, BlockRecord.splitWord_append (by decide)]
  simp only [if_pos, r.read?_render, Option.map_some]

theorem parse?_symbol (relation : Comparison) (u : Variable) :
    parse? (relation.symbol.toList ++ ' ' :: u.render.toList) = some (.against relation u) := by
  have solid : ' ' ∉ relation.symbol.toList := by cases relation <;> decide
  have other : relation.symbol.toList ≠ "matches".toList := by cases relation <;> decide
  have name : u.render.toList.dropSuffix? " vars".toList = some u.name.toList := by
    refine List.dropSuffix?_eq_some_iff.2 ⟨_, ?_, BEq.rfl⟩
    change (u.name ++ " " ++ "vars").toList = _
    simp
  rw [parse?, BlockRecord.splitWord_append solid]
  simp only [if_neg other, relation.read?_symbol, name, Option.bind_eq_bind, Option.bind_some,
    String.ofList_toList]
  rfl

theorem read?_render (v : Variable) (relation : Comparison) (source : Source) :
    read? v (Condition.ofComparison v relation source).render.toList = some (ofComparison relation source) := by
  have behind (text : List Char) : read? v (s!"score {v.render} ".toList ++ text) = parse? text := by
    rw [read?, List.dropPrefix?_eq_some_iff.2 ⟨_, rfl, BEq.rfl⟩, Option.bind_some]
  cases source with
  | «variable» u =>
    have text : (Condition.ofComparison v relation (.variable u)).render.toList =
        s!"score {v.render} ".toList ++ (relation.symbol.toList ++ ' ' :: u.render.toList) := by
      change ("score " ++ v.render ++ " " ++ relation.symbol ++ " " ++ u.render).toList =
        ("score " ++ v.render ++ " ").toList ++ _
      simp
    rw [text, behind, parse?_symbol, ofComparison]
  | literal k =>
    have text : (Condition.ofComparison v relation (.literal k)).render.toList =
        s!"score {v.render} ".toList ++ ("matches".toList ++ ' ' :: (relation.range k).render.toList) := by
      change ("score " ++ v.render ++ " matches " ++ (relation.range k).render).toList =
        ("score " ++ v.render ++ " ").toList ++ _
      simp
    rw [text, behind, parse?_matches, ofComparison]

theorem holds_ofComparison_iff (v : Variable) (relation : Comparison) (source : Source) (w : World) :
    (ofComparison relation source).Holds w (w.score v) ↔
      (Condition.ofComparison v relation source).holds w = true := by
  cases source with
  | «variable» u => exact (relation.holds_iff _ _).symm
  | literal k => exact Range.admits_bounds _ _

end Phrase

theorem Condition.holds_ofComparison_source (w : World) (v : Variable) (relation : Comparison) (source : Source) :
    (ofComparison v relation source).holds w = relation.holds (w.score v) (w.value source) := by
  cases source with
  | «variable» u => exact holds_ofComparison_variable w v relation u
  | literal k => exact holds_ofComparison w v relation k

namespace Machine

/-- The flags tell the six relations between two integers. -/
structure Flags.Tell (flags : Flags) (w : World) (a b : Int) : Prop where
  lt : w.scores flags.lt = some (verdict (a < b))
  le : w.scores flags.le = some (verdict (a ≤ b))
  eq : w.scores flags.eq = some (verdict (a = b))
  ne : w.scores flags.ne = some (verdict (a ≠ b))
  ge : w.scores flags.ge = some (verdict (a ≥ b))
  gt : w.scores flags.gt = some (verdict (a > b))

def Flags.variables (flags : Flags) : List Variable :=
  [flags.lt, flags.le, flags.ge, flags.gt, flags.eq, flags.ne]

section compare

variable (flags : Flags) (left : Variable) (right : Source)

def flagProgram (flag : Variable) (relation : Comparison) : Program :=
  .choice ⟨.ofComparison left relation right, false⟩
    (.command (.setScore flag 1) rfl) (.command (.setScore flag 0) rfl)

def equalityProgram : Program :=
  .choice ⟨.ofComparison left .eq right, false⟩
    (.seq (.command (.setScore flags.eq 1) rfl) (.command (.setScore flags.ne 0) rfl))
    (.seq (.command (.setScore flags.eq 0) rfl) (.command (.setScore flags.ne 1) rfl))

def compareProgram : Program :=
  .seq (flagProgram left right flags.lt .lt) <| .seq (flagProgram left right flags.le .le) <|
  .seq (flagProgram left right flags.ge .ge) <| .seq (flagProgram left right flags.gt .gt)
    (equalityProgram flags left right)

theorem emit_compareProgram : (compareProgram flags left right).emit = compare flags left right := rfl

variable {flags left right}

theorem reads_ofComparison (relation : Comparison) :
    (Condition.ofComparison left relation right).reads = left :: sourceReads right := by
  cases right <;> rfl

theorem undisturbed_compareProgram (apart : ∀ v ∈ left :: sourceReads right, v ∉ flags.variables) :
    (compareProgram flags left right).Undisturbed := by
  have spares (p : Program) (relation : Comparison)
      (writes : ∀ leaf ∈ p.leaves, ∀ v ∈ leaf.writes, v ∈ flags.variables) :
      p.Spares (.ofComparison left relation right) := by
    intro leaf mem v read written
    rw [reads_ofComparison] at read
    exact apart v read (writes leaf mem v written)
  simp only [compareProgram, flagProgram, equalityProgram, Program.Undisturbed, and_true]
  refine ⟨⟨?_, ?_⟩, ⟨?_, ?_⟩, ⟨?_, ?_⟩, ⟨?_, ?_⟩, ?_, ?_⟩ <;>
    exact spares _ _ (by simp [Program.leaves, Command.writes, Flags.variables])

theorem holds_setScore {relation : Comparison} {flag : Variable} (apart : flag ∉ left :: sourceReads right)
    (w : World) (n : Int32) :
    relation.holds ((w.setScore flag n).score left) ((w.setScore flag n).value right) =
      relation.holds (w.score left) (w.value right) := by
  obtain ⟨other, apart⟩ := List.ne_and_not_mem_of_not_mem_cons apart
  have value : (w.setScore flag n).value right = w.value right := by
    cases right with
    | literal k => rfl
    | «variable» u => exact World.score_setScore_of_ne _ (List.ne_of_not_mem_cons apart).symm _
  rw [World.score_setScore_of_ne _ other.symm, value]

theorem meaning_flagProgram (flag : Variable) (relation : Comparison) (origin : Point) (w : World) :
    (flagProgram left right flag relation).meaning origin w =
      w.setScore flag (verdict (relation.holds (w.score left) (w.value right))) := by
  have holds := Condition.holds_ofComparison_source w left relation right
  simp only [flagProgram, Program.meaning, Branch.holds, Bool.bne_false, holds, verdict]
  split <;> rfl

theorem meaning_equalityProgram (origin : Point) (w : World) :
    (equalityProgram flags left right).meaning origin w =
      (w.setScore flags.eq (verdict (Comparison.eq.holds (w.score left) (w.value right)))).setScore flags.ne
        (verdict (!Comparison.eq.holds (w.score left) (w.value right))) := by
  have holds := Condition.holds_ofComparison_source w left .eq right
  simp only [equalityProgram, Program.meaning, Branch.holds, Bool.bne_false, holds, verdict]
  cases Comparison.eq.holds (w.score left) (w.value right) <;> rfl

/-- Every comparison sees the two values as they were before the first flag was set. -/
theorem meaning_compareProgram (apart : ∀ v ∈ left :: sourceReads right, v ∉ flags.variables)
    (origin : Point) (w : World) :
    (compareProgram flags left right).meaning origin w =
      let outcome (relation : Comparison) := relation.holds (w.score left) (w.value right)
      (((((w.setScore flags.lt (verdict (outcome .lt))).setScore flags.le (verdict (outcome .le))).setScore
        flags.ge (verdict (outcome .ge))).setScore flags.gt (verdict (outcome .gt))).setScore
        flags.eq (verdict (outcome .eq))).setScore flags.ne (verdict (!outcome .eq)) := by
  have kept (flag : Variable) (mem : flag ∈ flags.variables) : flag ∉ left :: sourceReads right :=
    fun read => apart flag read mem
  have lt := kept flags.lt (by simp [Flags.variables])
  have le := kept flags.le (by simp [Flags.variables])
  have ge := kept flags.ge (by simp [Flags.variables])
  have gt := kept flags.gt (by simp [Flags.variables])
  rw [compareProgram, Program.meaning, meaning_flagProgram, Program.meaning, meaning_flagProgram, Program.meaning,
    meaning_flagProgram, Program.meaning, meaning_flagProgram, meaning_equalityProgram]
  simp only [holds_setScore lt, holds_setScore le, holds_setScore ge, holds_setScore gt]

theorem tell_meaning_compareProgram (distinct : flags.variables.Nodup)
    (apart : ∀ v ∈ left :: sourceReads right, v ∉ flags.variables) (origin : Point) (w : World) :
    flags.Tell ((compareProgram flags left right).meaning origin w)
      (w.score left).toInt (w.value right).toInt := by
  rw [meaning_compareProgram apart]
  simp only [Comparison.holds_eq]
  simp only [Flags.variables, List.nodup_cons, List.mem_cons, List.not_mem_nil, or_false, not_or,
    not_false_eq_true, List.nodup_nil, and_true] at distinct
  obtain ⟨⟨lt_le, lt_ge, lt_gt, lt_eq, lt_ne⟩, ⟨le_ge, le_gt, le_eq, le_ne⟩, ⟨ge_gt, ge_eq, ge_ne⟩,
    ⟨gt_eq, gt_ne⟩, eq_ne⟩ := distinct
  constructor
  case ne =>
    rw [World.scores_setScore_self, ← decide_not]
    rfl
  all_goals
    simp only [World.setScore, ne_eq, not_false_eq_true, Function.update_of_ne, Function.update_self, lt_le, lt_ge,
      lt_gt, lt_eq, lt_ne, le_ge, le_gt, le_eq, le_ne, ge_gt, ge_eq, ge_ne, gt_eq, gt_ne, eq_ne]
    rfl

theorem frame_meaning_compareProgram (apart : ∀ v ∈ left :: sourceReads right, v ∉ flags.variables)
    (origin : Point) (w : World) :
    ∃ scores, (compareProgram flags left right).meaning origin w = { w with scores } ∧
      ∀ v ∉ flags.variables, scores v = w.scores v := by
  rw [meaning_compareProgram apart]
  refine ⟨_, rfl, fun v other => ?_⟩
  simp only [Flags.variables, List.mem_cons, List.not_mem_nil, or_false, not_or] at other
  obtain ⟨lt, le, ge, gt, eq, ne⟩ := other
  simp only [World.setScore, Function.update_of_ne lt, Function.update_of_ne le, Function.update_of_ne ge,
    Function.update_of_ne gt, Function.update_of_ne eq, Function.update_of_ne ne]

end compare

end Machine

/-- Comparisons mean what their texts say. The text of a range admits the numbers in the range. The text of a
comparison holds for a score exactly if the score stands in the relation to the other side, whether that is a
literal or a variable, and so does the condition. So a comparison of anything but the flags makes them tell the
six relations, and changes nothing else. -/
theorem comparisons_mean_relations :
    (∀ (r : Range) (n : Int), ∃ bounds, Bounds.read? r.render.toList = some bounds ∧
      (bounds.Admits n ↔ r.contains n = true)) ∧
    (∀ (v : Variable) (relation : Comparison) (source : Source) (w : World), ∃ phrase,
      Phrase.read? v (Condition.ofComparison v relation source).render.toList = some phrase ∧
      (phrase.Holds w (w.score v) ↔ relation.Relates (w.score v).toInt (w.value source).toInt) ∧
      ((Condition.ofComparison v relation source).holds w = true ↔
        relation.Relates (w.score v).toInt (w.value source).toInt)) ∧
    ∀ (flags : Machine.Flags) (left : Variable) (right : Source), flags.variables.Nodup →
      (∀ v ∈ left :: Machine.sourceReads right, v ∉ flags.variables) →
      ∃ cs, Emits (Machine.compare flags left right) () cs [] ∧ ∀ (p : Site) (w : World),
        flags.Tell (w.runAll p cs) (w.score left).toInt (w.value right).toInt ∧
        ∃ scores, w.runAll p cs = { w with scores } ∧ ∀ v ∉ flags.variables, scores v = w.scores v := by
  refine ⟨fun r n => ⟨_, r.read?_render, r.admits_bounds n⟩, fun v relation source w => ?_,
    fun flags left right distinct apart => ?_⟩
  · have tested : (Condition.ofComparison v relation source).holds w = true ↔
        relation.Relates (w.score v).toInt (w.value source).toInt := by
      rw [Condition.holds_ofComparison_source, relation.holds_iff]
    have said := Phrase.holds_ofComparison_iff v relation source w
    exact ⟨_, Phrase.read?_render v relation source, said.trans tested, tested⟩
  · rw [← Machine.emit_compareProgram]
    refine ⟨_, (Machine.compareProgram flags left right).emits_flat, fun p w => ?_⟩
    rw [Program.runAll_flat (Machine.undisturbed_compareProgram apart) p p.centre]
    exact ⟨Machine.tell_meaning_compareProgram distinct apart _ w,
      Machine.frame_meaning_compareProgram apart _ w⟩

/-- Next to the greatest number the bound of the condition is no 32-bit number. -/
theorem comparisons_mean_relations_greatest :
    Machine.Registers.standard.flags.variables.Nodup ∧
      (∀ v ∈ [Variable.mk "a"], v ∉ Machine.Registers.standard.flags.variables) ∧
      (Condition.ofComparison ⟨"a"⟩ .gt (.literal 2147483647)).render = "score a vars matches 2147483648.." ∧
      ∃ cs, Emits (Machine.compare Machine.Registers.standard.flags ⟨"a"⟩ (.literal 2147483647)) () cs [] ∧
        let w := (({} : World).setScore ⟨"a"⟩ 2147483647).runAll ⟨0, 0, 0⟩ cs
        w.scores ⟨"GT"⟩ = some 0 ∧ w.scores ⟨"LE"⟩ = some 1 := by
  have distinct : Machine.Registers.standard.flags.variables.Nodup := by decide
  have apart : ∀ v ∈ [Variable.mk "a"], v ∉ Machine.Registers.standard.flags.variables := by decide
  obtain ⟨cs, emits, runs⟩ := comparisons_mean_relations.2.2 _ ⟨"a"⟩ (.literal 2147483647) distinct apart
  obtain ⟨tell, -⟩ := runs ⟨0, 0, 0⟩ (({} : World).setScore ⟨"a"⟩ 2147483647)
  exact ⟨distinct, apart, by decide, cs, emits, tell.gt, tell.le⟩

end BlockComputer
