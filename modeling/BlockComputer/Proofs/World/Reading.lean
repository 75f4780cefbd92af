import BlockComputer.Proofs.World.Frame
import BlockComputer.Proofs.World.Operands

/-!
Commands read back from their texts.

A text falls into words at its blanks. The first words tell what a command does, and the words behind them
are its operands; behind `execute` stand qualifiers up to the word `run`, and then another command. What a
selector does not say is lost, and so is the way in which a scale is written. But a command whose names are
plain words is read as one that does the same.
-/

namespace BlockComputer

def Text.tokens (text : String) : List String :=
  (text.toList.splitOn ' ').map String.ofList

def Qualifier.guard? : String → Option (Condition → Qualifier)
  | "if" => some .ifHolds
  | "unless" => some .unlessHolds
  | _ => none

def Qualifier.store? : String → Option (StoreTarget → Qualifier)
  | "result" => some .storeResult
  | "success" => some .storeSuccess
  | _ => none

mutual

/-- Reads a command from its words. -/
def Command.read? : List String → Option Command
  | [""] => some .placeholder
  | ["scoreboard", "objectives", "add", "vars", "dummy"] => some .addObjective
  | ["scoreboard", "players", "set", name, "vars", value] =>
    (Text.word32? value.toList).map (.setScore ⟨name⟩)
  | ["scoreboard", "players", "add", name, "vars", amount] =>
    (Text.natural? amount.toList).map (.addScore ⟨name⟩)
  | ["scoreboard", "players", "remove", name, "vars", amount] =>
    (Text.natural? amount.toList).map (.removeScore ⟨name⟩)
  | ["scoreboard", "players", "reset", name, "vars"] => some (.resetScore ⟨name⟩)
  | ["scoreboard", "players", "operation", name, "vars", op, source, "vars"] =>
    (ScoreOp.read? op).map (.operateScore ⟨name⟩ · ⟨source⟩)
  | ["scoreboard", "players", "get", name, "vars"] => some (.getScore ⟨name⟩)
  | ["data", "get", "block", x, y, z, path] => do
    return .getCount ⟨← Position.read? x y z, ← Slot.index? path⟩
  | ["data", "modify", "block", x, y, z, path, "set", "value", count] => do
    let number ← count.toList.dropSuffix? ['b']
    return .setCount ⟨← Position.read? x y z, ← Slot.index? path⟩ (← Text.integer? number)
  | ["fill", x, y, z, x', y', z', block] => do
    return .fill (← Position.read? x y z) (← Position.read? x' y' z') (← Filling.read? block)
  | ["clone", x, y, z, x', y', z', a, b, c] => do
    return .clone (← Position.read? x y z) (← Position.read? x' y' z') (← Position.read? a b c) false
  | ["clone", x, y, z, x', y', z', a, b, c, "masked"] => do
    return .clone (← Position.read? x y z) (← Position.read? x' y' z') (← Position.read? a b c) true
  | ["summon", kind, "~", "~", "~", data] =>
    (Text.between? "\x7bTags:['" Text.Quoted.single data).map fun tag => .summon ⟨kind, tag⟩
  | ["kill", selector] => (Entity.read? selector).map .kill
  | ["tp", selector, x, y, z] => do
    return .teleport (← Entity.read? selector) (← Position.readExact? x y z)
  | ["tellraw", "@a", text] =>
    (Text.between? "\x7b\"score\":\x7b\"name\":\"" Text.Quoted.double text).map (.tellScore ⟨·⟩)
  | "execute" :: words => Command.readUnder? [] words
  | _ => none

/-- Reads the command behind qualifiers, some of which have been read. -/
def Command.readUnder? (qualifiers : List Qualifier) : List String → Option Command
  | "run" :: words => (Command.read? words).map (.execute qualifiers)
  | "at" :: selector :: words => do
    Command.readUnder? (qualifiers ++ [.atEntity (← Entity.read? selector)]) words
  | "as" :: selector :: words => do
    Command.readUnder? (qualifiers ++ [.asEntity (← Entity.read? selector)]) words
  | "store" :: kind :: "score" :: name :: "vars" :: words => do
    Command.readUnder? (qualifiers ++ [(← Qualifier.store? kind) (.score ⟨name⟩)]) words
  | "store" :: kind :: "entity" :: selector :: path :: type :: scale :: words => do
    let type ← NumberType.read? type
    let target := StoreTarget.entity (← Entity.read? selector) path type (← Decimal.read? scale)
    Command.readUnder? (qualifiers ++ [(← Qualifier.store? kind) target]) words
  | "store" :: kind :: "block" :: x :: y :: z :: path :: type :: scale :: words => do
    let type ← NumberType.read? type
    let target := StoreTarget.block (← Position.read? x y z) path type (← Decimal.read? scale)
    Command.readUnder? (qualifiers ++ [(← Qualifier.store? kind) target]) words
  | word :: "entity" :: selector :: words => do
    let condition := Condition.present (← Entity.read? selector)
    Command.readUnder? (qualifiers ++ [(← Qualifier.guard? word) condition]) words
  | word :: "score" :: name :: "vars" :: "matches" :: range :: words => do
    let condition := Condition.inRange ⟨name⟩ (← Range.read? range)
    Command.readUnder? (qualifiers ++ [(← Qualifier.guard? word) condition]) words
  | word :: "score" :: left :: "vars" :: relation :: right :: "vars" :: words => do
    let condition := Condition.compare ⟨left⟩ (← Comparison.read? relation.toList) ⟨right⟩
    Command.readUnder? (qualifiers ++ [(← Qualifier.guard? word) condition]) words
  | _ => none

end

def Condition.inWords : Condition → Bool
  | .compare left _ right => Text.isName left.name && Text.isName right.name
  | .inRange score _ => Text.isName score.name
  | .present entity => Text.isName entity.tag

def StoreTarget.inWords : StoreTarget → Bool
  | .score target => Text.isName target.name
  | .entity target path _ _ => Text.isName target.tag && Text.isName path
  | .block _ path _ _ => Text.isName path

def Qualifier.inWords : Qualifier → Bool
  | .atEntity entity | .asEntity entity => Text.isName entity.tag
  | .ifHolds condition | .unlessHolds condition => condition.inWords
  | .storeResult target | .storeSuccess target => target.inWords

def Command.inWords : Command → Bool
  | .placeholder | .addObjective | .getCount _ | .setCount .. | .fill .. | .clone .. => true
  | .raw _ => false
  | .setScore target _ | .addScore target _ | .removeScore target _ | .resetScore target
  | .getScore target | .tellScore target => Text.isName target.name
  | .operateScore target _ source => Text.isName target.name && Text.isName source.name
  | .summon entity => Text.isName entity.kind && Text.isName entity.tag
  | .kill entity | .teleport entity _ => Text.isName entity.tag
  | .execute qualifiers command =>
    !qualifiers.isEmpty && qualifiers.all Qualifier.inWords && command.inWords

def Text.sentence (words : List String) : String :=
  " ".intercalate words

open Text (sentence)

namespace Text

theorem sentence_cons {words : List String} (nonempty : words ≠ []) (word : String) :
    sentence (word :: words) = word ++ " " ++ sentence words :=
  String.intercalate_cons_of_ne_nil nonempty

theorem sentence_append {words others : List String} (left : words ≠ []) (right : others ≠ []) :
    sentence (words ++ others) = sentence words ++ " " ++ sentence others :=
  String.intercalate_append_of_ne_nil left right

theorem sentence_singleton (word : String) : sentence [word] = word :=
  String.intercalate_singleton

theorem tokens_sentence {words : List String} (nonempty : words ≠ [])
    (solid : ∀ word ∈ words, ' ' ∉ word.toList) : tokens (sentence words) = words := by
  have apart : ∀ word ∈ words.map String.toList, ' ' ∉ word := List.forall_mem_map.2 solid
  have split : (sentence words).toList.splitOn ' ' = words.map String.toList := by
    rw [sentence, String.toList_intercalate]
    exact List.splitOn_intercalate ' ' apart (by simpa using nonempty)
  rw [tokens, split, List.map_map]
  simp

end Text

def Condition.words : Condition → List String
  | .compare left relation right => ["score", left.name, "vars", relation.symbol, right.name, "vars"]
  | .inRange score range => ["score", score.name, "vars", "matches", range.render]
  | .present entity => ["entity", entity.selector]

def StoreTarget.words : StoreTarget → List String
  | .score target => ["score", target.name, "vars"]
  | .entity target path type scale => ["entity", target.selector, path, type.symbol, scale.render]
  | .block position path type scale => "block" :: position.words ++ [path, type.symbol, scale.render]

def Qualifier.words : Qualifier → List String
  | .atEntity entity => ["at", entity.selector]
  | .asEntity entity => ["as", entity.selector]
  | .ifHolds condition => "if" :: condition.words
  | .unlessHolds condition => "unless" :: condition.words
  | .storeResult target => "store" :: "result" :: target.words
  | .storeSuccess target => "store" :: "success" :: target.words

def Command.words : Command → List String
  | .placeholder => [""]
  | .raw text => [text]
  | .addObjective => ["scoreboard", "objectives", "add", "vars", "dummy"]
  | .setScore target value => ["scoreboard", "players", "set", target.name, "vars", toString value.toInt]
  | .addScore target amount => ["scoreboard", "players", "add", target.name, "vars", toString amount]
  | .removeScore target amount => ["scoreboard", "players", "remove", target.name, "vars", toString amount]
  | .resetScore target => ["scoreboard", "players", "reset", target.name, "vars"]
  | .operateScore target op source =>
    ["scoreboard", "players", "operation", target.name, "vars", op.symbol, source.name, "vars"]
  | .getScore source => ["scoreboard", "players", "get", source.name, "vars"]
  | .getCount source => ["data", "get", "block"] ++ source.position.words ++ [source.path]
  | .setCount target count =>
    ["data", "modify", "block"] ++ target.position.words ++ [target.path, "set", "value", s!"{count}b"]
  | .fill first last block => "fill" :: first.words ++ last.words ++ [block.render]
  | .clone first last target masked =>
    "clone" :: first.words ++ last.words ++ target.words ++ if masked then ["masked"] else []
  | .summon entity => ["summon", entity.kind, "~", "~", "~", "\x7bTags:['" ++ entity.tag ++ "']\x7d"]
  | .kill entity => ["kill", entity.selector]
  | .teleport entity target => "tp" :: entity.selector :: target.exactWords
  | .tellScore source => ["tellraw", "@a",
      "\x7b\"score\":\x7b\"name\":\"" ++ source.name ++ "\",\"objective\":\""
      ++ objective ++ "\"\x7d\x7d"]
  | .execute qualifiers command => "execute" :: qualifiers.flatMap Qualifier.words ++ "run" :: command.words

theorem literals_eq :
    "scoreboard players set " = "scoreboard" ++ (" " ++ ("players" ++ (" " ++ ("set" ++ " ")))) ∧
    "scoreboard players add " = "scoreboard" ++ (" " ++ ("players" ++ (" " ++ ("add" ++ " ")))) ∧
    "scoreboard players remove " = "scoreboard" ++ (" " ++ ("players" ++ (" " ++ ("remove" ++ " ")))) ∧
    "scoreboard players reset " = "scoreboard" ++ (" " ++ ("players" ++ (" " ++ ("reset" ++ " ")))) ∧
    "scoreboard players operation " =
      "scoreboard" ++ (" " ++ ("players" ++ (" " ++ ("operation" ++ " ")))) ∧
    "scoreboard players get " = "scoreboard" ++ (" " ++ ("players" ++ (" " ++ ("get" ++ " ")))) ∧
    "data get block " = "data" ++ (" " ++ ("get" ++ (" " ++ ("block" ++ " ")))) ∧
    "data modify block " = "data" ++ (" " ++ ("modify" ++ (" " ++ ("block" ++ " ")))) ∧
    " set value " = " " ++ ("set" ++ (" " ++ ("value" ++ " "))) ∧
    "fill " = "fill" ++ " " ∧ "clone " = "clone" ++ " " ∧ " masked" = " " ++ "masked" ∧
    "summon " = "summon" ++ " " ∧ " ~ ~ ~ " = " " ++ ("~" ++ (" " ++ ("~" ++ (" " ++ ("~" ++ " "))))) ∧
    "kill " = "kill" ++ " " ∧ "tp " = "tp" ++ " " ∧
    "tellraw @a \x7b\"score\":\x7b\"name\":\"" =
      "tellraw" ++ (" " ++ ("@a" ++ (" " ++ "\x7b\"score\":\x7b\"name\":\""))) ∧
    "execute " = "execute" ++ " " ∧ " run " = " " ++ ("run" ++ " ") ∧
    "score " = "score" ++ " " ∧ " matches " = " " ++ ("matches" ++ " ") ∧ "entity " = "entity" ++ " " ∧
    "block " = "block" ++ " " ∧ objective = "vars" := by
  decide

theorem Condition.render_eq (c : Condition) : c.render = sentence c.words := by
  unfold render words
  cases c <;> simp only [sentence, String.intercalate_cons_cons, String.intercalate_singleton,
    Variable.render, toString, literals_eq, String.append_assoc]

theorem StoreTarget.render_eq (t : StoreTarget) : t.render = sentence t.words := by
  unfold render words
  cases t <;> simp only [Position.words, sentence, List.cons_append, List.nil_append,
    String.intercalate_cons_cons, String.intercalate_singleton, Variable.render, Position.render, toString,
    literals_eq, String.append_assoc]

theorem Condition.words_ne_nil (c : Condition) : c.words ≠ [] := by
  cases c <;> exact List.cons_ne_nil _ _

theorem StoreTarget.words_ne_nil (t : StoreTarget) : t.words ≠ [] := by
  cases t <;> exact List.cons_ne_nil _ _

theorem Qualifier.words_ne_nil (q : Qualifier) : q.words ≠ [] := by
  cases q <;> exact List.cons_ne_nil _ _

theorem Command.words_ne_nil (c : Command) : c.words ≠ [] := by
  cases c <;> exact List.cons_ne_nil _ _

theorem Qualifier.render_eq (q : Qualifier) : q.render = sentence q.words := by
  cases q with
  | atEntity | asEntity =>
    rw [words, Text.sentence_cons (by simp), Text.sentence_singleton]
    rfl
  | ifHolds c | unlessHolds c =>
    rw [words, Text.sentence_cons c.words_ne_nil, ← c.render_eq]
    rfl
  | storeResult t | storeSuccess t =>
    rw [words, Text.sentence_cons (by simp), Text.sentence_cons t.words_ne_nil, ← t.render_eq,
      ← String.append_assoc, ← String.append_assoc]
    rfl

theorem Qualifier.intercalate_render (qualifiers : List Qualifier) :
    " ".intercalate (qualifiers.map render) = sentence (qualifiers.flatMap words) := by
  induction qualifiers with
  | nil => rfl
  | cons q qualifiers ih =>
    rw [List.map_cons, List.flatMap_cons, q.render_eq]
    cases qualifiers with
    | nil =>
      rw [List.flatMap_nil, List.append_nil]
      exact String.intercalate_singleton
    | cons next others =>
      have more : (next :: others).flatMap words ≠ [] :=
        fun none => next.words_ne_nil (List.append_eq_nil_iff.1 none).1
      rw [String.intercalate_cons_of_ne_nil (by simp), ih, Text.sentence_append q.words_ne_nil more]

theorem Command.render_eq {c : Command} (inWords : c.inWords) : c.render = sentence c.words := by
  induction c with
  | placeholder | addObjective => rfl
  | raw => cases inWords
  | execute qualifiers c ih =>
    unfold Command.inWords at inWords
    simp only [Bool.and_eq_true] at inWords
    obtain ⟨⟨some, -⟩, inner⟩ := inWords
    have parts : qualifiers.flatMap Qualifier.words ≠ [] := by
      cases qualifiers with
      | nil => cases some
      | cons q => exact fun none => q.words_ne_nil (List.append_eq_nil_iff.1 none).1
    have text : sentence ("execute" :: qualifiers.flatMap Qualifier.words ++ "run" :: c.words) =
        "execute" ++ " " ++ (sentence (qualifiers.flatMap Qualifier.words) ++ " " ++
          ("run" ++ " " ++ c.render)) := by
      rw [List.cons_append, Text.sentence_cons (by simp), Text.sentence_append parts (by simp),
        Text.sentence_cons c.words_ne_nil, ih inner]
    refine Eq.trans ?_ text.symm
    rw [← Qualifier.intercalate_render]
    change "execute " ++ _ ++ " run " ++ c.render = _
    simp only [toString, literals_eq, String.append_assoc]
  | clone first last target masked =>
    unfold render words
    cases masked <;> simp only [Position.words, sentence, List.cons_append, List.nil_append, List.append_nil,
      if_true, if_false, Bool.false_eq_true, String.intercalate_cons_cons, String.intercalate_singleton,
      Position.render, toString, literals_eq, String.append_assoc, String.append_empty]
  | _ =>
    unfold render words
    simp only [Position.words, Position.exactWords, sentence, List.cons_append, List.nil_append,
      String.intercalate_cons_cons, String.intercalate_singleton, Variable.render, Position.render,
      Position.renderExact, toString, literals_eq, String.append_assoc]

section solid

open Text

theorem Condition.isSolid_words {c : Condition} (inWords : c.inWords) :
    ∀ word ∈ c.words, IsSolid word := by
  cases c with
  | compare left relation right =>
    obtain ⟨first, second⟩ := Bool.and_eq_true_iff.1 inWords
    have symbol : IsSolid relation.symbol := by cases relation <;> decide
    simp only [words, List.forall_mem_cons]
    exact ⟨by decide, isSolid_of_isName first, by decide, symbol, isSolid_of_isName second, by decide⟩
  | inRange score range =>
    simp only [words, List.forall_mem_cons]
    exact ⟨by decide, isSolid_of_isName inWords, by decide, by decide, range.isSolid_render, by decide⟩
  | present entity =>
    simp only [words, List.forall_mem_cons]
    exact ⟨by decide, Entity.isSolid_selector inWords, by decide⟩

theorem StoreTarget.isSolid_words {t : StoreTarget} (inWords : t.inWords) :
    ∀ word ∈ t.words, IsSolid word := by
  have symbol (type : NumberType) : IsSolid type.symbol := by cases type <;> decide
  cases t with
  | score target =>
    simp only [words, List.forall_mem_cons]
    exact ⟨by decide, isSolid_of_isName inWords, by decide⟩
  | entity target path type scale =>
    obtain ⟨name, path⟩ := Bool.and_eq_true_iff.1 inWords
    simp only [words, List.forall_mem_cons]
    exact ⟨by decide, Entity.isSolid_selector name, isSolid_of_isName path, symbol type, scale.isSolid_render,
      by decide⟩
  | block position path type scale =>
    simp only [words, List.forall_mem_append, List.forall_mem_cons]
    exact ⟨⟨by decide, position.isSolid_words⟩, isSolid_of_isName inWords, symbol type, scale.isSolid_render,
      by decide⟩

theorem Qualifier.isSolid_words {q : Qualifier} (inWords : q.inWords) :
    ∀ word ∈ q.words, IsSolid word := by
  cases q with
  | atEntity entity | asEntity entity =>
    simp only [words, List.forall_mem_cons]
    exact ⟨by decide, Entity.isSolid_selector inWords, by decide⟩
  | ifHolds condition | unlessHolds condition =>
    exact List.forall_mem_cons.2 ⟨by decide, Condition.isSolid_words inWords⟩
  | storeResult target | storeSuccess target =>
    simp only [words, List.forall_mem_cons]
    exact ⟨by decide, by decide, StoreTarget.isSolid_words inWords⟩

theorem Command.isSolid_words {c : Command} (inWords : c.inWords) : ∀ word ∈ c.words, IsSolid word := by
  induction c with
  | raw => cases inWords
  | placeholder | addObjective => unfold words; decide
  | setScore target value =>
    unfold words
    simp only [List.forall_mem_cons]
    exact ⟨by decide, by decide, by decide, isSolid_of_isName inWords, by decide, isSolid_int _, by decide⟩
  | addScore target amount | removeScore target amount =>
    unfold words
    simp only [List.forall_mem_cons]
    exact ⟨by decide, by decide, by decide, isSolid_of_isName inWords, by decide, isSolid_nat _, by decide⟩
  | resetScore target | getScore target =>
    unfold words
    simp only [List.forall_mem_cons]
    exact ⟨by decide, by decide, by decide, isSolid_of_isName inWords, by decide⟩
  | operateScore target op source =>
    obtain ⟨first, second⟩ := Bool.and_eq_true_iff.1 inWords
    have symbol : IsSolid op.symbol := by cases op <;> decide
    unfold words
    simp only [List.forall_mem_cons]
    exact ⟨by decide, by decide, by decide, isSolid_of_isName first, by decide, symbol,
      isSolid_of_isName second, by decide⟩
  | getCount source =>
    unfold words
    simp only [List.forall_mem_append]
    exact ⟨⟨by decide, source.position.isSolid_words⟩, List.forall_mem_singleton.2 source.isSolid_path⟩
  | setCount target count =>
    unfold words
    simp only [List.forall_mem_append, List.forall_mem_cons]
    exact ⟨⟨by decide, target.position.isSolid_words⟩, target.isSolid_path, by decide, by decide,
      .append (isSolid_int count) (by decide), by decide⟩
  | fill first last block =>
    have filling : IsSolid block.render := by cases block <;> decide +kernel
    unfold words
    simp only [List.forall_mem_append, List.forall_mem_cons]
    exact ⟨⟨⟨by decide, first.isSolid_words⟩, last.isSolid_words⟩, filling, by decide⟩
  | clone first last target masked =>
    unfold words
    simp only [List.forall_mem_append, List.forall_mem_cons]
    refine ⟨⟨⟨⟨by decide, first.isSolid_words⟩, last.isSolid_words⟩, target.isSolid_words⟩, ?_⟩
    cases masked <;> decide
  | summon entity =>
    obtain ⟨kind, tag⟩ := Bool.and_eq_true_iff.1 inWords
    unfold words
    simp only [List.forall_mem_cons]
    exact ⟨by decide, isSolid_of_isName kind, by decide, by decide, by decide,
      .append (.append (by decide) (isSolid_of_isName tag)) (by decide), by decide⟩
  | kill entity =>
    unfold words
    simp only [List.forall_mem_cons]
    exact ⟨by decide, Entity.isSolid_selector inWords, by decide⟩
  | teleport entity target =>
    unfold words
    simp only [List.forall_mem_cons]
    exact ⟨by decide, Entity.isSolid_selector inWords, target.isSolid_exactWords⟩
  | tellScore source =>
    unfold words
    simp only [List.forall_mem_cons]
    exact ⟨by decide, by decide, .append (.append (.append (.append (by decide) (isSolid_of_isName inWords))
      (by decide)) (by decide)) (by decide), by decide⟩
  | execute qualifiers c ih =>
    unfold Command.inWords at inWords
    simp only [Bool.and_eq_true, List.all_eq_true] at inWords
    obtain ⟨⟨-, outer⟩, inner⟩ := inWords
    unfold words
    simp only [List.forall_mem_append, List.forall_mem_cons]
    refine ⟨⟨by decide, fun word mem => ?_⟩, by decide, ih inner⟩
    obtain ⟨q, among, mem⟩ := List.mem_flatMap.1 mem
    exact Qualifier.isSolid_words (outer q among) word mem

theorem Command.tokens_render {c : Command} (inWords : c.inWords) : tokens c.render = c.words := by
  rw [render_eq inWords, tokens_sentence c.words_ne_nil (isSolid_words inWords)]

end solid

inductive Qualifier.Guards : String → (Condition → Qualifier) → Prop where
  | ifHolds : Guards "if" .ifHolds
  | unlessHolds : Guards "unless" .unlessHolds

inductive Qualifier.Stores : String → (StoreTarget → Qualifier) → Prop where
  | storeResult : Stores "result" .storeResult
  | storeSuccess : Stores "success" .storeSuccess

theorem Condition.exists_readUnder? {c : Condition} (inWords : c.inWords) :
    ∃ c' : Condition, (∀ w, c'.holds w = c.holds w) ∧
      ∀ word guard, Qualifier.Guards word guard → ∀ before words,
        Command.readUnder? before (word :: c.words ++ words) =
          Command.readUnder? (before ++ [guard c']) words := by
  cases c with
  | compare left relation right =>
    refine ⟨.compare left relation right, fun _ => rfl, fun word guard known before words => ?_⟩
    cases relation <;> cases known <;> rfl
  | inRange score range =>
    refine ⟨.inRange score range, fun _ => rfl, fun word guard known before words => ?_⟩
    have read : Command.readUnder? before (word :: "score" :: score.name :: "vars" :: "matches" ::
        range.render :: words) = (Range.read? range.render).bind fun range =>
          Command.readUnder? (before ++ [guard (.inRange score range)]) words := by
      cases known <;> rfl
    exact read.trans (by rw [range.read?_text]; rfl)
  | present entity =>
    refine ⟨.present ⟨"", entity.tag⟩, fun _ => rfl, fun word guard known before words => ?_⟩
    have read : Command.readUnder? before (word :: "entity" :: entity.selector :: words) =
        (Entity.read? entity.selector).bind fun entity =>
          Command.readUnder? (before ++ [guard (.present entity)]) words := by
      cases known <;> rfl
    exact read.trans (by rw [Entity.read?_selector inWords]; rfl)

theorem StoreTarget.exists_readUnder? {t : StoreTarget} (inWords : t.inWords) :
    ∃ t' : StoreTarget, (∀ origin, t'.destination? origin = t.destination? origin) ∧
      ∀ kind store, Qualifier.Stores kind store → ∀ before words,
        Command.readUnder? before ("store" :: kind :: t.words ++ words) =
          Command.readUnder? (before ++ [store t']) words := by
  cases t with
  | score target =>
    refine ⟨.score target, fun _ => rfl, fun kind store known before words => ?_⟩
    cases known <;> rfl
  | entity target path type scale =>
    obtain ⟨name, -⟩ := Bool.and_eq_true_iff.1 inWords
    obtain ⟨scale', readScale, value⟩ := scale.exists_read?_render
    refine ⟨.entity ⟨"", target.tag⟩ path type scale', fun _ => ?_, fun kind store known before words => ?_⟩
    · rw [destination?, destination?, value]
    · have read : Command.readUnder? before ("store" :: kind :: "entity" :: target.selector :: path ::
          type.symbol :: scale.render :: words) = (NumberType.read? type.symbol).bind fun type =>
            (Entity.read? target.selector).bind fun target => (Decimal.read? scale.render).bind fun scale =>
              Command.readUnder? (before ++ [store (.entity target path type scale)]) words := by
        cases known <;> rfl
      exact read.trans (by rw [type.read?_symbol, Entity.read?_selector name, readScale]; rfl)
  | block position path type scale =>
    obtain ⟨scale', readScale, -⟩ := scale.exists_read?_render
    refine ⟨.block position path type scale', fun _ => rfl, fun kind store known before words => ?_⟩
    have read : Command.readUnder? before ("store" :: kind :: "block" :: position.x.render ::
        position.y.render :: position.z.render :: path :: type.symbol :: scale.render :: words) =
          (NumberType.read? type.symbol).bind fun type =>
            (Position.read? position.x.render position.y.render position.z.render).bind fun position =>
              (Decimal.read? scale.render).bind fun scale =>
                Command.readUnder? (before ++ [store (.block position path type scale)]) words := by
      cases known <;> rfl
    exact read.trans (by rw [type.read?_symbol, position.read?_words, readScale]; rfl)

theorem Qualifier.exists_readUnder? {q : Qualifier} (inWords : q.inWords) :
    ∃ q' : Qualifier, (∀ w others origin, enter w (q' :: others) origin = enter w (q :: others) origin) ∧
      ∀ before words, Command.readUnder? before (q.words ++ words) =
        Command.readUnder? (before ++ [q']) words := by
  cases q with
  | atEntity entity =>
    refine ⟨.atEntity ⟨"", entity.tag⟩, fun _ _ _ => rfl, fun before words => ?_⟩
    change (Entity.read? entity.selector).bind (fun entity =>
      Command.readUnder? (before ++ [.atEntity entity]) words) = _
    rw [Entity.read?_selector inWords]
    rfl
  | asEntity entity =>
    refine ⟨.asEntity ⟨"", entity.tag⟩, fun _ _ _ => rfl, fun before words => ?_⟩
    change (Entity.read? entity.selector).bind (fun entity =>
      Command.readUnder? (before ++ [.asEntity entity]) words) = _
    rw [Entity.read?_selector inWords]
    rfl
  | ifHolds c =>
    obtain ⟨c', same, read⟩ := Condition.exists_readUnder? inWords
    exact ⟨.ifHolds c', fun w _ _ => by rw [enter, enter, same], read _ _ .ifHolds⟩
  | unlessHolds c =>
    obtain ⟨c', same, read⟩ := Condition.exists_readUnder? inWords
    exact ⟨.unlessHolds c', fun w _ _ => by rw [enter, enter, same], read _ _ .unlessHolds⟩
  | storeResult t =>
    obtain ⟨t', same, read⟩ := StoreTarget.exists_readUnder? inWords
    exact ⟨.storeResult t', fun w _ _ => by rw [enter, enter, same], read _ _ .storeResult⟩
  | storeSuccess t =>
    obtain ⟨t', same, read⟩ := StoreTarget.exists_readUnder? inWords
    exact ⟨.storeSuccess t', fun w _ _ => by rw [enter, enter, same], read _ _ .storeSuccess⟩

theorem Qualifier.enter_cons_congr {w : World} {others others' : List Qualifier}
    (same : ∀ origin, enter w others' origin = enter w others origin) (q : Qualifier) (origin : Point) :
    enter w (q :: others') origin = enter w (q :: others) origin := by
  cases q <;> simp only [enter, same]

theorem Qualifier.exists_readUnder?_flatMap {qualifiers : List Qualifier}
    (inWords : ∀ q ∈ qualifiers, q.inWords) :
    ∃ others, (∀ w origin, enter w others origin = enter w qualifiers origin) ∧
      ∀ before words, Command.readUnder? before (qualifiers.flatMap Qualifier.words ++ words) =
        Command.readUnder? (before ++ others) words := by
  induction qualifiers with
  | nil => exact ⟨[], fun _ _ => rfl, fun before words => by rw [List.append_nil]; rfl⟩
  | cons q qualifiers ih =>
    obtain ⟨first, rest⟩ := List.forall_mem_cons.1 inWords
    obtain ⟨q', sameFirst, readFirst⟩ := exists_readUnder? first
    obtain ⟨others, same, read⟩ := ih rest
    refine ⟨q' :: others, fun w origin => ?_, fun before words => ?_⟩
    · exact (sameFirst w others origin).trans (enter_cons_congr (same w) q origin)
    · rw [List.flatMap_cons, List.append_assoc, readFirst, read, List.append_assoc, List.singleton_append]

/-- What is read from the words of a command does the same. -/
theorem Command.exists_read?_words {c : Command} (inWords : c.inWords) :
    ∃ c', read? c.words = some c' ∧ ∀ origin w, c'.run origin w = c.run origin w := by
  induction c with
  | raw => cases inWords
  | placeholder | addObjective | resetScore | getScore => exact ⟨_, rfl, fun _ _ => rfl⟩
  | setScore target value =>
    refine ⟨.setScore target value, ?_, fun _ _ => rfl⟩
    change (Text.word32? (toString value.toInt).toList).map (setScore target) = _
    rw [Text.word32?_toString, Option.map_some]
  | addScore target amount =>
    refine ⟨.addScore target amount, ?_, fun _ _ => rfl⟩
    change (Text.natural? (toString amount).toList).map (addScore target) = _
    rw [Text.natural?_toString, Option.map_some]
  | removeScore target amount =>
    refine ⟨.removeScore target amount, ?_, fun _ _ => rfl⟩
    change (Text.natural? (toString amount).toList).map (removeScore target) = _
    rw [Text.natural?_toString, Option.map_some]
  | operateScore target op source =>
    refine ⟨.operateScore target op source, ?_, fun _ _ => rfl⟩
    change (ScoreOp.read? op.symbol).map (operateScore target · source) = _
    rw [op.read?_symbol, Option.map_some]
  | getCount source =>
    refine ⟨.getCount source, ?_, fun _ _ => rfl⟩
    change (Position.read? _ _ _).bind (fun position =>
      (Slot.index? source.path).bind fun index => some (getCount ⟨position, index⟩)) = _
    rw [source.position.read?_words, source.index?_path]
    rfl
  | setCount target count =>
    refine ⟨.setCount target count, ?_, fun _ _ => rfl⟩
    have number : (s!"{count}b").toList.dropSuffix? ['b'] = some (toString count).toList :=
      List.dropSuffix?_eq_some_iff.2 ⟨_, String.toList_append, BEq.rfl⟩
    change (s!"{count}b".toList.dropSuffix? ['b']).bind (fun number =>
      (Position.read? _ _ _).bind fun position => (Slot.index? target.path).bind fun index =>
        (Text.integer? number).bind fun count => some (setCount ⟨position, index⟩ count)) = _
    rw [number, target.position.read?_words, target.index?_path]
    simp only [Option.bind_some, Text.integer?_toString]
  | fill first last block =>
    refine ⟨.fill first last block, ?_, fun _ _ => rfl⟩
    change (Position.read? _ _ _).bind (fun first => (Position.read? _ _ _).bind fun last =>
      (Filling.read? block.render).bind fun block => some (fill first last block)) = _
    rw [first.read?_words, last.read?_words, block.read?_render]
    rfl
  | clone first last target masked =>
    refine ⟨.clone first last target masked, ?_, fun _ _ => rfl⟩
    have read : read? (words (.clone first last target masked)) =
        (Position.read? first.x.render first.y.render first.z.render).bind fun first =>
          (Position.read? last.x.render last.y.render last.z.render).bind fun last =>
            (Position.read? target.x.render target.y.render target.z.render).bind fun target =>
              some (clone first last target masked) := by
      cases masked <;> rfl
    rw [read, first.read?_words, last.read?_words, target.read?_words]
    rfl
  | summon entity =>
    obtain ⟨-, tag⟩ := Bool.and_eq_true_iff.1 inWords
    have apart : Text.Quoted.single ∉ entity.tag.toList := Text.notMem_of_isName tag (by decide)
    refine ⟨.summon entity, ?_, fun _ _ => rfl⟩
    change (Text.between? "\x7bTags:['" Text.Quoted.single ("\x7bTags:['" ++ entity.tag ++ "']\x7d")).map
      (fun tag => summon ⟨entity.kind, tag⟩) = _
    rw [Text.between?_append _ apart "]\x7d".toList (by simp; rfl)]
    rfl
  | kill entity =>
    refine ⟨.kill ⟨"", entity.tag⟩, ?_, fun _ _ => rfl⟩
    change (Entity.read? entity.selector).map kill = _
    rw [Entity.read?_selector inWords, Option.map_some]
  | teleport entity target =>
    refine ⟨.teleport ⟨"", entity.tag⟩ target, ?_, fun _ _ => rfl⟩
    change (Entity.read? entity.selector).bind (fun entity =>
      (Position.readExact? _ _ _).bind fun target => some (teleport entity target)) = _
    rw [Entity.read?_selector inWords, target.readExact?_words]
    rfl
  | tellScore source =>
    have apart : Text.Quoted.double ∉ source.name.toList := Text.notMem_of_isName inWords (by decide)
    refine ⟨.tellScore source, ?_, fun _ _ => rfl⟩
    change (Text.between? "\x7b\"score\":\x7b\"name\":\"" Text.Quoted.double
      ("\x7b\"score\":\x7b\"name\":\"" ++ source.name ++ "\",\"objective\":\"" ++ objective ++
        "\"\x7d\x7d")).map (fun name => tellScore ⟨name⟩) = _
    rw [Text.between?_append _ apart (",\"objective\":\"".toList ++ objective.toList ++ "\"\x7d\x7d".toList)
      (by simp; rfl)]
    rfl
  | execute qualifiers c ih =>
    unfold Command.inWords at inWords
    simp only [Bool.and_eq_true, List.all_eq_true] at inWords
    obtain ⟨⟨-, outer⟩, inner⟩ := inWords
    obtain ⟨others, same, read⟩ := Qualifier.exists_readUnder?_flatMap outer
    obtain ⟨c', readInner, runs⟩ := ih inner
    refine ⟨.execute others c', ?_, fun origin w => ?_⟩
    · change readUnder? [] (qualifiers.flatMap Qualifier.words ++ "run" :: c.words) = _
      rw [read]
      change (read? c.words).map (execute others) = _
      rw [readInner, Option.map_some]
    · simp only [run_execute, same, after, runs]

/-- Runs the command that stands in a text. -/
def World.runText (origin : Point) (w : World) (text : String) : Option (World × Option Int32) :=
  (Command.read? (Text.tokens text)).map (·.run origin w)

/-- A command whose names are plain words says in its text what it does. -/
theorem World.runText_render {c : Command} (inWords : c.inWords) (origin : Point) (w : World) :
    w.runText origin c.render = some (c.run origin w) := by
  obtain ⟨c', read, same⟩ := Command.exists_read?_words inWords
  rw [runText, Command.tokens_render inWords, read, Option.map_some, same]

end BlockComputer
