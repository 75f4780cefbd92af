import BlockComputer.CommandLine.Assembler
import BlockComputer.Proofs.Assembly.Source
import BlockComputer.Proofs.Assembly.Uniqueness
import BlockComputer.Proofs.CommandLine.Outcome
import BlockComputer.Proofs.Machine.Booting

/-!
The assembler prints what the generator loads.

The assembler goes through the lines of a program one by one and prints as it goes; the generator encodes
the whole program first and preloads its words. Both take the same words from the same lines, and a program
that has none for the generator stops the assembler at its first faulty line.
-/

namespace BlockComputer

open Assembly

namespace Text

theorem padded_succ {base width : Nat} (two : 1 < base) (pos : 0 < width) (n : Nat) :
    padded base (width + 1) n = padded base width (n / base) ++ String.singleton (n % base).digitChar := by
  have single : String.singleton (n % base).digitChar = String.ofList [(n % base).digitChar] := rfl
  unfold padded
  rw [single, ← String.ofList_append]
  rcases Nat.lt_or_ge n base with less | ge
  · have digits : Nat.toDigits base n = [n.digitChar] := Nat.toDigits_of_lt_base less
    have zero : Nat.toDigits base 0 = ['0'] := Nat.toDigits_of_lt_base (by omega)
    rw [Nat.div_eq_of_lt less, Nat.mod_eq_of_lt less, digits, zero]
    obtain ⟨w, rfl⟩ := Nat.exists_eq_succ_of_ne_zero (Nat.ne_of_gt pos)
    simp [List.replicate_succ', List.append_assoc]
  · rw [Nat.toDigits_of_base_le two ge]
    simp

end Text

namespace CommandLine

def octal (n : Nat) : String :=
  String.ofList ([n / 512, n / 64 % 8, n / 8 % 8, n % 8].map Nat.digitChar)

theorem padded_eq_octal {n : Nat} (small : n < 4096) : Text.padded 8 4 n = octal n := by
  have top : Text.padded 8 1 (n / 8 / 8 / 8) = String.singleton (n / 8 / 8 / 8).digitChar := by
    rw [Text.padded, Nat.toDigits_of_lt_base (by omega)]
    rfl
  have second : n / 8 / 8 = n / 64 := by omega
  have first : n / 8 / 8 / 8 = n / 512 := by omega
  rw [Text.padded_succ (by decide) (by decide), Text.padded_succ (by decide) (by decide),
    Text.padded_succ (by decide) (by decide), top, first, second, ← String.toList_inj]
  simp [octal]

def wordLine (word : UInt16) : String :=
  s!"{octal word.toNat} ({(halves word).1}, {(halves word).2})"

def wordLines (words : List UInt16) : String :=
  String.join (words.map fun word => wordLine word ++ "\n")

theorem toNat_lt_of_encodeLine {line : List Char} {word : UInt16} (encoded : encodeLine line = .ok word) :
    word.toNat < 4096 := by
  obtain ⟨e, operands, uses⟩ := exists_uses_of_encodeLine encoded
  exact (uses.isWord encoded).small

theorem describeWord_eq {word : UInt16} (small : word.toNat < 4096) :
    Assembler.describeWord word = wordLine word := by
  rw [Assembler.describeWord, padded_eq_octal small]
  rfl

namespace Assembler

variable {m : Type → Type} [Monad m] [LawfulMonad m]

theorem outcome_forM_assembleLine {numbered : List (Nat × List Char)} {words : List UInt16}
    (encoded : (numbered.map Prod.snd).mapM encodeLine = .ok words) (output : String) :
    outcome (numbered.forM assembleLine : RunT m Unit) output =
      pure (.ok (), output ++ wordLines words) := by
  have each := mapM_eq_ok_iff.1 encoded
  clear encoded
  induction numbered generalizing words output with
  | nil =>
    cases each
    simp [outcome, wordLines]
  | cons line numbered ih =>
    rw [List.map_cons] at each
    cases each with
    | @cons _ word _ words first others =>
      have printed : (assembleLine line : RunT m Unit) = printLine (describeWord word) := by
        rw [assembleLine, first]
      change outcome (assembleLine line >>= fun _ => numbered.forM assembleLine) output = _
      rw [printed, outcome_bind, outcome_printLine, pure_bind]
      simp only
      rw [ih _ others, describeWord_eq (toNat_lt_of_encodeLine first)]
      simp [wordLines, String.append_assoc]

theorem outcome_forM_assembleLine_of_fault {before after : List (Nat × List Char)} {words : List UInt16}
    {line : Nat × List Char} {cause : Error}
    (encoded : (before.map Prod.snd).mapM encodeLine = .ok words)
    (fails : encodeLine line.2 = .error (.error cause)) (output : String) :
    outcome ((before ++ line :: after).forM assembleLine : RunT m Unit) output =
      pure (.error (s!"Error: line {line.1}: {cause.message}" ++ "\n"),
        output ++ wordLines words) := by
  have stops : (assembleLine line : RunT m Unit) =
      giveUp s!"Error: line {line.1}: {cause.message}" := by
    rw [assembleLine, fails]
    rfl
  have split : ((before ++ line :: after).forM assembleLine : RunT m Unit) =
      before.forM assembleLine >>= fun _ =>
        assembleLine line >>= fun _ => after.forM assembleLine := by
    rw [← seqRight_eq_bind]
    exact List.forM_append
  rw [split, outcome_bind, outcome_forM_assembleLine encoded, pure_bind]
  simp only
  rw [outcome_bind, stops, outcome_giveUp, pure_bind]

theorem exists_numbered_eq (before : List (List Char)) (line : List Char) (after : List (List Char)) :
    ∃ rest, numbered (before ++ line :: after) =
      numbered before ++ (before.length + 1, Text.trim line) :: rest := by
  simp [numbered, List.mapIdx_append, List.mapIdx_cons]

theorem instructionLines_eq (source : List Char) :
    instructionLines source = (numbered (Text.lines source)).filter fun line => isInstruction line.2 := rfl

theorem mapM_filter_numbered (ls : List (List Char)) :
    (((numbered ls).filter fun line => isInstruction line.2).map Prod.snd).mapM encodeLine =
      encodeLines ls := by
  rw [encodeLines, ← map_snd_numbered, List.filter_map]
  rfl

theorem report_assemble {source : String} {words : List UInt16}
    (encoded : encodeProgram source.toList = .ok words) :
    report (assemble source : RunT m Unit) = pure ⟨0, wordLines words, ""⟩ := by
  rw [encodeProgram_eq, ← mapM_filter_numbered] at encoded
  rw [report_eq, assemble, instructionLines_eq, outcome_forM_assembleLine encoded, pure_bind]
  simp

theorem report_assemble_of_fault {source : String} {before after : List (List Char)} {line : List Char}
    {words : List UInt16} {cause : Error} (lines : Text.lines source.toList = before ++ line :: after)
    (fails : FailsBehind before words line cause) :
    report (assemble source : RunT m Unit) = pure
      ⟨1, wordLines words, s!"Error: line {before.length + 1}: {cause.message}" ++ "\n"⟩ := by
  obtain ⟨rest, split⟩ := exists_numbered_eq before line after
  have encoded := fails.before
  rw [← mapM_filter_numbered] at encoded
  rw [report_eq, assemble, instructionLines_eq, lines, split, List.filter_append,
    List.filter_cons_of_pos (p := fun l : Nat × List Char => isInstruction l.2) fails.instruction,
    outcome_forM_assembleLine_of_fault encoded fails.fails,
    pure_bind]
  simp

def transcript (source : String) : Report :=
  Id.run (report (assemble source))

theorem report_assemble_eq (source : String) :
    report (assemble source : RunT m Unit) = pure (transcript source) := by
  cases encoded : encodeProgram source.toList with
  | ok words => rw [transcript, report_assemble encoded, report_assemble encoded, Id.run_pure]
  | error e =>
    obtain ⟨before, words, line, after, cause, lines, fails, -⟩ :=
      encodeLines_eq_error_iff.1 (encodeProgram_eq _ ▸ encoded)
    rw [transcript, report_assemble_of_fault lines fails, report_assemble_of_fault lines fails,
      Id.run_pure]

theorem run_file (host : Host m) (program : String) {path : String}
    (file : ¬ (path = "-h" ∨ path = "--help")) : run host program [path] = (do
      match ← host.readText path with
      | .ok source => pure (transcript source)
      | .error reason => pure ⟨1, "", s!"Error reading '{path}': {reason.message}" ++ "\n"⟩) := by
  have chosen : run host program [path] = report (do
      match ← ask (host.readText path) with
      | .ok source => assemble source
      | .error reason => giveUp s!"Error reading '{path}': {reason.message}") := by
    refine congrArg report ((if_neg file).trans (bind_congr fun answer => ?_))
    cases answer <;> rfl
  rw [chosen, report_eq, outcome_bind, outcome_ask, bind_map_left, bind_assoc]
  refine bind_congr fun answer => ?_
  cases answer with
  | ok source =>
    have printed := report_assemble_eq (m := m) source
    rwa [report_eq] at printed
  | error reason =>
    simp only
    rw [outcome_giveUp, pure_bind]

theorem blocks_preload_halves {source : List Char} {words : List UInt16}
    (encoded : encodeProgram source = .ok words) (fits : words.length ≤ Machine.Layout.memoryWords)
    {w : World} (barrels : ∀ q, Machine.InMemory q → ∃ counts, w.blocks q = some (.barrel counts)) (p : Site)
    (i : Nat) (less : i < words.length) :
    (w.runAll p (Machine.Memory.preloadCommands words)).blocks (Machine.Layout.cell (Int32.ofNat i)).site =
      some (.barrel ⟨Int32.ofNat ((halves words[i]).1.toNat + 1),
        Int32.ofNat ((halves words[i]).2.toNat + 1)⟩) := by
  have words4096 : Machine.Layout.memoryWords = 4096 := rfl
  have small : words[i].toNat < 4096 := by
    obtain ⟨line, -, encoded⟩ := exists_of_encodeProgram encoded (List.getElem_mem less)
    exact toNat_lt_of_encodeLine encoded
  choose old barrels using fun a : Machine.Word => barrels _ (Machine.Word.inMemory_site a)
  let a : Machine.Word := ⟨i, by omega⟩
  have cell : (Machine.Layout.cell (Int32.ofNat i)).site = Machine.Word.site a := by
    have number : (Int32.ofNat i).toInt = i := Int32.toInt_ofNat_of_lt (by omega)
    rw [Machine.Word.site_cell (by omega)]
    exact congrArg Machine.Word.site (Machine.Word.ofScore_score a)
  have word : (Machine.programImage words a).val = words[i].toNat := by
    have number : (Int32.ofNat words[i].toNat).toInt = words[i].toNat := Int32.toInt_ofNat_of_lt (by omega)
    have value := Machine.Word.val_ofScore (Int32.ofNat words[i].toNat)
    rw [number] at value
    simp only [Machine.programImage, a, List.getD_eq_getElem?_getD, List.getElem?_eq_getElem less,
      Option.getD_some]
    omega
  rw [cell, Machine.blocks_preload_over (words4096 ▸ fits) barrels p a, if_pos less, Machine.Word.counts_eq, word]
  rfl

/-- The assembler prints the words that the generator encodes, and preloading puts the same halves into the
memory. It stops at the line where encoding the program fails, with the same error, behind the words of the
lines before. Texts on top of each other are encoded one after the other, and lines without an instruction
can be put in anywhere. -/
theorem front_ends_agree :
    (∃ answer : String → Report,
      (∀ (m : Type → Type) [Monad m] [LawfulMonad m] (host : Host m) (program path : String),
        ¬ (path = "-h" ∨ path = "--help") → run host program [path] = (do
          match ← host.readText path with
          | .ok source => pure (answer source)
          | .error reason => pure ⟨1, "", s!"Error reading '{path}': {reason.message}" ++ "\n"⟩)) ∧
      ∀ source : String,
        (∀ words, encodeProgram source.toList = .ok words →
          answer source = ⟨0, wordLines words, ""⟩ ∧ (∀ word ∈ words, word.toNat < 4096) ∧
          (words.length ≤ Machine.Layout.memoryWords →
            (∀ s : Session, perform (Machine.Memory.preload words) s =
              (.ok (), s.extendInit (Machine.Memory.preloadCommands words))) ∧
            ∀ (w : World) (p : Site), (∀ q, Machine.InMemory q → ∃ counts, w.blocks q = some (.barrel counts)) →
              ∀ (i : Nat) (_ : i < words.length),
                (w.runAll p (Machine.Memory.preloadCommands words)).blocks
                    (Machine.Layout.cell (Int32.ofNat i)).site =
                  some (.barrel ⟨Int32.ofNat ((halves words[i]).1.toNat + 1),
                    Int32.ofNat ((halves words[i]).2.toNat + 1)⟩))) ∧
        ∀ e, encodeProgram source.toList = .error e → ∃ before words line after cause,
          source.toList = Text.joinLines (before ++ line :: after) ∧
          (∀ l ∈ before ++ line :: after, '\n' ∉ l) ∧ FailsBehind before words line cause ∧
          e = .error cause ∧ answer source =
            ⟨1, wordLines words, s!"Error: line {before.length + 1}: {cause.message}" ++ "\n"⟩) ∧
    (∀ s t : List Char, encodeProgram (s ++ '\n' :: t) = do
      let words ← encodeProgram s
      let words' ← encodeProgram t
      return words ++ words') ∧
    ∀ before extra after : List (List Char), (∀ l ∈ before ++ extra ++ after, '\n' ∉ l) →
      (∀ l ∈ extra, IsSkipped l) →
        encodeProgram (Text.joinLines (before ++ extra ++ after)) =
          encodeProgram (Text.joinLines (before ++ after)) := by
  refine ⟨⟨transcript, fun m _ _ host program path file => run_file host program file,
    fun source => ⟨fun words encoded => ⟨?_, fun word mem => ?_, fun fits => ⟨?_, ?_⟩⟩, fun e failed => ?_⟩⟩,
    encodeProgram_append, fun before extra after => encodeProgram_insert⟩
  · rw [transcript, report_assemble encoded, Id.run_pure]
  · obtain ⟨line, -, ok⟩ := exists_of_encodeProgram encoded mem
    exact toNat_lt_of_encodeLine ok
  · exact Machine.perform_preload fits
  · exact fun w p barrels => blocks_preload_halves encoded fits barrels p
  · rw [encodeProgram_eq] at failed
    obtain ⟨before, words, line, after, cause, lines, fails, same⟩ := encodeLines_eq_error_iff.1 failed
    have joined := Text.joinLines_lines source.toList
    rw [lines] at joined
    refine ⟨before, words, line, after, cause, joined.symm, fun l mem => ?_, fails, same, ?_⟩
    · exact Text.notMem_of_mem_lines (lines ▸ mem)
    · rw [transcript, report_assemble_of_fault lines fails, Id.run_pure]

def readingHost (text : String) : Host Id where
  readText _ := .ok text
  createParents _ := .ok ()
  writeText _ _ := .ok ()
  runProgram _ _ := .error .notFound
  readDocument _ := none

theorem front_ends_agree_two_words :
    run (readingHost "const 7\n\n  add a0 a1\n") "assembler" ["demo.asm"] =
        ⟨0, "4007 (32, 7)\n0101 (1, 1)\n", ""⟩ ∧
      (World.runAll ⟨0, 0, 0⟩ ⟨fun _ => some (.barrel ⟨1, 1⟩), fun _ => none, [], []⟩
        (Machine.Memory.preloadCommands [0o4007, 0o101])).blocks ⟨1, 128, 0⟩ = some (.barrel ⟨2, 2⟩) ∧
      (∃ (words : List UInt16) (number : Nat), encodeProgram "# two\nconst 7\nfrob\n".toList =
          .error (.error (.unknownMnemonic "frob")) ∧
        run (readingHost "# two\nconst 7\nfrob\n") "assembler" ["demo.asm"] =
          ⟨1, wordLines words,
            s!"Error: line {number}: " ++ (Error.unknownMnemonic "frob").message ++ "\n"⟩) ∧
      encodeProgram (Text.joinLines ["const 7".toList, "  # seven".toList, [], "ret".toList]) =
        encodeProgram (Text.joinLines ["const 7".toList, "ret".toList]) := by
  obtain ⟨⟨answer, runs, sources⟩, -, inserted⟩ := front_ends_agree
  have file : ¬ ("demo.asm" = "-h" ∨ "demo.asm" = "--help") := by decide
  have encoded : encodeProgram "const 7\n\n  add a0 a1\n".toList = .ok [0o4007, 0o101] := by decide +kernel
  have failed : encodeProgram "# two\nconst 7\nfrob\n".toList = .error (.error (.unknownMnemonic "frob")) := by
    decide +kernel
  obtain ⟨printed, -, preloaded⟩ := (sources _).1 _ encoded
  obtain ⟨-, cells⟩ := preloaded (by decide)
  obtain ⟨before, words, line, after, cause, -, -, -, same, stopped⟩ := (sources _).2 _ failed
  cases same
  refine ⟨?_, cells _ ⟨0, 0, 0⟩ (fun _ _ => ⟨_, rfl⟩) 1 (by decide), ⟨words, before.length + 1, failed, ?_⟩,
    inserted ["const 7".toList] ["  # seven".toList, []] ["ret".toList] (by decide) ?_⟩
  · rw [runs Id (readingHost _) "assembler" "demo.asm" file]
    exact printed.trans (by decide +kernel)
  · rw [runs Id (readingHost _) "assembler" "demo.asm" file]
    exact stopped
  · have comment : ("  # seven".toList.dropWhile Text.isBlank).head? = some '#' := by decide +kernel
    refine List.forall_mem_cons.2 ⟨fun c mem => ?_, List.forall_mem_singleton.2 fun c mem => nomatch mem⟩
    exact (Option.some.inj (comment.symm.trans mem)).symm

end Assembler

end CommandLine

end BlockComputer
