import BlockComputer.Assembly.Program
import BlockComputer.CommandLine.Host

/-!
The assembler: prints the words of a program, one line each, up to the first faulty line.
-/

namespace BlockComputer.CommandLine.Assembler

variable {m : Type → Type} [Monad m]

def usage (program : String) : List String :=
  [s!"Usage: {program} <program.asm>",
   "",
   "Prints one line per instruction: the word in octal and the",
   "two six-bit halves stored in memory."]

def describeWord (word : UInt16) : String :=
  let (high, low) := Assembly.halves word
  s!"{Text.padded 8 4 word.toNat} ({high}, {low})"

def assembleLine (line : Nat × List Char) : RunT m Unit :=
  match Assembly.encodeLine line.2 with
  | .ok word => printLine (describeWord word)
  | .error f => giveUp s!"Error: line {line.1}: {describe f}"

def assemble (source : String) : RunT m Unit :=
  (Assembly.instructionLines source.toList).forM assembleLine

def run (host : Host m) (program : String) : List String → m Report
  | [path] => report do
    if path = "-h" ∨ path = "--help" then printLines (usage program)
    else
      match ← ask (host.readText path) with
      | .ok source => assemble source
      | .error reason => giveUp s!"Error reading '{path}': {reason.message}"
  | _ => report do
    printLines (usage program)
    throw ""

end BlockComputer.CommandLine.Assembler
