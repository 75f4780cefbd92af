import BlockComputer.Listing
import BlockComputer.Proofs.Assembly.Source
import BlockComputer.Proofs.Emission.Wording
import BlockComputer.Proofs.Text.Quoted

/-!
Listings read back.

The text of a listing has one line for each block, since neither a number nor quoted text holds a line
feed. A line is read from the left: three numbers and the block up to blanks, then the data, whose quoted
text ends itself. So the text of a listing says everything about its blocks, whatever their commands are.
-/

namespace BlockComputer

theorem Text.lines_flatMap_feed {ls : List (List Char)} (single : ∀ l ∈ ls, '\n' ∉ l) :
    lines (ls.flatMap (· ++ ['\n'])) = ls ++ [[]] := by
  induction ls with
  | nil => rfl
  | cons l ls ih =>
    obtain ⟨first, others⟩ := List.forall_mem_cons.1 single
    rw [List.flatMap_cons, List.append_assoc, List.singleton_append, lines_append, lines_of_notMem first,
      ih others]
    rfl

/-- What one line of a listing says about its block. -/
structure BlockRecord where
  x : Int
  y : Int
  z : Int
  block : String
  command : String
  auto : Bool
deriving DecidableEq, Repr

def PlacedUnit.record (u : PlacedUnit) : BlockRecord where
  x := u.position.x.value.toInt
  y := u.position.y.value.toInt
  z := u.position.z.value.toInt
  block := u.kind.blockId
  command := u.command.render
  auto := u.auto

namespace BlockRecord

def ending (r : BlockRecord) : List Char :=
  if r.auto then ",auto:1b\x7d".toList else "\x7d".toList

def line (r : BlockRecord) : List Char :=
  r.x.repr.toList ++ ' ' :: (r.y.repr.toList ++ ' ' :: (r.z.repr.toList ++ ' ' :: (r.block.toList ++
    ' ' :: ("\x7bCommand:".toList ++ (Text.Quoted.encode r.command.toList ++ r.ending)))))

def splitWord (text : List Char) : List Char × List Char :=
  (text.takeWhile (· != ' '), (text.dropWhile (· != ' ')).tail)

def number? (text : List Char) : Option (Int × List Char) :=
  (Text.integer? (splitWord text).1).map fun n => (n, (splitWord text).2)

def auto? (text : List Char) : Option Bool :=
  if text = "\x7d".toList then some false
  else if text = ",auto:1b\x7d".toList then some true
  else none

def read? (line : List Char) : Option BlockRecord := do
  let (x, afterX) ← number? line
  let (y, afterY) ← number? afterX
  let (z, afterZ) ← number? afterY
  let (block, data) := splitWord afterZ
  let quoted ← data.dropPrefix? "\x7bCommand:".toList
  let (command, behind) ← Text.Quoted.read? quoted
  let auto ← auto? behind
  return ⟨x, y, z, String.ofList block, String.ofList command, auto⟩

theorem splitWord_append {word : List Char} (solid : ' ' ∉ word) (rest : List Char) :
    splitWord (word ++ ' ' :: rest) = (word, rest) := by
  have stays : ∀ c ∈ word, (c != ' ') = true :=
    fun c mem => bne_iff_ne.2 fun eq => solid (eq ▸ mem)
  rw [splitWord, List.takeWhile_append_of_pos stays, List.dropWhile_append_of_pos stays]
  simp

theorem isDigits_repr (n : Nat) :
    Text.IsDigits n.repr.toList ∧ Nat.ofDigitChars 10 n.repr.toList 0 = n := by
  rw [Nat.toList_repr]
  exact ⟨⟨Nat.toDigits_ne_nil, fun c mem => Nat.isDigit_of_mem_toDigits (by decide) (by decide) mem⟩,
    Nat.ofDigitChars_ten_toDigits⟩

theorem integer?_repr (n : Int) : Text.integer? n.repr.toList = some n := by
  rw [Text.integer?_eq_some_iff]
  cases n with
  | ofNat m =>
    have plain := Text.IsDecimal.plain (isDigits_repr m).1
    rwa [(isDigits_repr m).2] at plain
  | negSucc m =>
    have minus := Text.IsDecimal.minus (isDigits_repr (m + 1)).1
    rw [(isDigits_repr (m + 1)).2] at minus
    rw [show (Int.negSucc m).repr = "-" ++ (m + 1).repr from rfl, String.toList_append]
    exact minus

theorem number?_append (n : Int) (rest : List Char) :
    number? (n.repr.toList ++ ' ' :: rest) = some (n, rest) := by
  rw [number?, splitWord_append (blank_notMem_repr n), integer?_repr]
  rfl

theorem auto?_ending (r : BlockRecord) : auto? r.ending = some r.auto := by
  unfold ending
  cases r.auto <;> rfl

theorem read?_line {r : BlockRecord} (solid : ' ' ∉ r.block.toList) : read? r.line = some r := by
  have data (rest : List Char) : ("\x7bCommand:".toList ++ rest).dropPrefix? "\x7bCommand:".toList = some rest :=
    List.dropPrefix?_eq_some_iff.2 ⟨_, rfl, BEq.rfl⟩
  simp only [line, read?, number?_append, Option.bind_eq_bind, Option.bind_some, splitWord_append solid, data,
    Text.Quoted.read?_encode_append, auto?_ending, String.ofList_toList]
  rfl

theorem feed_notMem_line {r : BlockRecord} (single : '\n' ∉ r.block.toList) : '\n' ∉ r.line := by
  have number (n : Int) : '\n' ∉ n.repr.toList :=
    fun mem => absurd (isDigit_or_minus_of_mem_repr mem) (by decide)
  have command : '\n' ∉ Text.Quoted.encode r.command.toList :=
    fun mem => absurd (Text.Quoted.isControl_of_mem_encode mem) (by decide)
  have ending : '\n' ∉ r.ending := by
    unfold BlockRecord.ending
    split <;> decide
  have blank : '\n' ≠ ' ' := by decide
  simp [line, number, single, command, ending, blank]

end BlockRecord

namespace PlacedUnit

theorem toList_render (u : PlacedUnit) : u.render.toList = u.record.line := by
  change (u.position.x.value.toInt.repr ++ " " ++ u.position.y.value.toInt.repr ++ " "
    ++ u.position.z.value.toInt.repr ++ " " ++ u.kind.blockId ++ " " ++ u.data).toList = _
  unfold data Text.Quoted.quote BlockRecord.line BlockRecord.ending record
  cases u.auto <;> simp

theorem read?_render (u : PlacedUnit) : BlockRecord.read? u.render.toList = some u.record := by
  rw [toList_render]
  refine BlockRecord.read?_line ?_
  change ' ' ∉ u.kind.blockId.toList
  cases u.kind <;> decide

theorem feed_notMem_render (u : PlacedUnit) : '\n' ∉ u.render.toList := by
  rw [toList_render]
  refine BlockRecord.feed_notMem_line ?_
  change '\n' ∉ u.kind.blockId.toList
  cases u.kind <;> decide

end PlacedUnit

namespace Listing

theorem toList_render (listing : Listing) :
    listing.render.toList = (listing.map fun u => u.render.toList).flatMap (· ++ ['\n']) := by
  induction listing with
  | nil => rfl
  | cons u listing ih =>
    unfold render at ih ⊢
    rw [List.map_cons, String.join_cons, String.toList_append, ih, String.toList_append]
    rfl

theorem single_render (listing : Listing) : ∀ l ∈ listing.map fun u => u.render.toList, '\n' ∉ l := by
  rintro l mem
  obtain ⟨u, -, rfl⟩ := List.mem_map.1 mem
  exact u.feed_notMem_render

theorem map_read?_render (listing : Listing) :
    ((listing.map fun u => u.render.toList).map BlockRecord.read?) = listing.map fun u => some u.record := by
  rw [List.map_map]
  exact List.map_congr_left fun u _ => u.read?_render

theorem lines_render (listing : Listing) :
    Text.lines listing.render.toList = (listing.map fun u => u.render.toList) ++ [[]] := by
  rw [toList_render, Text.lines_flatMap_feed listing.single_render]

theorem render_eq_iff {listing other : Listing} :
    listing.render = other.render ↔ listing.map PlacedUnit.record = other.map PlacedUnit.record := by
  constructor
  · intro same
    have lines := listing.lines_render
    rw [same, other.lines_render, List.append_cancel_right_eq] at lines
    have records := congrArg (List.map BlockRecord.read?) lines
    rw [map_read?_render, map_read?_render] at records
    refine List.map_injective_iff.2 (fun _ _ => Option.some.inj) ?_
    rw [List.map_map, List.map_map]
    exact records.symm
  · intro same
    have texts (l : Listing) : (l.map fun u => u.render.toList) = (l.map PlacedUnit.record).map BlockRecord.line := by
      rw [List.map_map]
      exact List.map_congr_left fun u _ => u.toList_render
    rw [← String.toList_inj, toList_render, toList_render, texts, texts, same]

/-- The text of a listing has one line for each block, each with a line feed, and one reader finds in each
line the three numbers, the block, the command and whether it is active without power. So two listings
have the same text exactly when they agree in all of these. And the command of a block may be any text. -/
theorem render_lossless (listing : Listing) :
    (∃ ls : List (List Char), listing.render.toList = ls.flatMap (· ++ ['\n']) ∧ (∀ l ∈ ls, '\n' ∉ l) ∧
      ls.map BlockRecord.read? = listing.map fun u => some u.record) ∧
    (∀ other : Listing, listing.render = other.render ↔
      listing.map PlacedUnit.record = other.map PlacedUnit.record) ∧
    ∀ (u : PlacedUnit) (text : String),
      { u with command := .raw text : PlacedUnit }.record = { u.record with command := text } :=
  ⟨⟨_, listing.toList_render, listing.single_render, listing.map_read?_render⟩, fun _ => render_eq_iff,
    fun _ _ => rfl⟩

end Listing

end BlockComputer
