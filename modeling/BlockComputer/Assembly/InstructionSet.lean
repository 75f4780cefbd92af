import BlockComputer.Assembly.Encoding

/-!
The instruction set. Every word of twelve bits belongs to one encoding, so the reserved ones are
listed too, under names of their own.
-/

namespace BlockComputer.Assembly

def number (width : Nat) : List (OperandKind × Field) :=
  [(.immediate, ⟨width, 0⟩)]

def pair (destination source : OperandKind) : List (OperandKind × Field) :=
  [(destination, ⟨3, 3⟩), (source, ⟨3, 0⟩)]

def lone : List (OperandKind × Field) :=
  [(.general, ⟨3, 0⟩)]

def binaryEncodings : List Encoding :=
  [⟨"mov", 0b000000, 6, pair .general .general⟩,
   ⟨"add", 0b000001, 6, pair .general .general⟩,
   ⟨"sub", 0b000010, 6, pair .general .general⟩,
   ⟨"mul", 0b000011, 6, pair .general .general⟩,
   ⟨"div", 0b000100, 6, pair .general .general⟩,
   ⟨"mod", 0b000101, 6, pair .general .general⟩,
   ⟨"min", 0b000110, 6, pair .general .general⟩,
   ⟨"max", 0b000111, 6, pair .general .general⟩,
   ⟨"split", 0b001000, 6, pair .general .general⟩,
   ⟨"cmp", 0b001001, 6, pair .general .general⟩,
   ⟨"mov", 0b001010, 6, pair .general .scratch⟩,
   ⟨"mov", 0b001011, 6, pair .scratch .general⟩,
   ⟨"mov", 0b001100, 6, pair .general .pointer⟩,
   ⟨"mov", 0b001101, 6, pair .pointer .general⟩]

def unaryEncodings : List Encoding :=
  [⟨"ldc", 0b001110000, 9, lone⟩,
   ⟨"inc", 0b001110001, 9, lone⟩,
   ⟨"dec", 0b001110010, 9, lone⟩,
   ⟨"neg", 0b001110011, 9, lone⟩,
   ⟨"clr", 0b001110100, 9, lone⟩,
   ⟨"asr12", 0b001110101, 9, lone⟩,
   ⟨"asl12", 0b001110110, 9, lone⟩,
   ⟨"cmp", 0b001111000, 9, lone⟩,
   ⟨"push", 0b001111001, 9, lone⟩,
   ⟨"pop", 0b001111010, 9, lone⟩,
   ⟨"ret", 0b001111110000, 12, []⟩]

def jumpEncodings : List Encoding :=
  [⟨"jlt", 0b01000, 5, number 7⟩,
   ⟨"jle", 0b01001, 5, number 7⟩,
   ⟨"jeq", 0b01010, 5, number 7⟩,
   ⟨"jge", 0b01011, 5, number 7⟩,
   ⟨"jgt", 0b01100, 5, number 7⟩,
   ⟨"jne", 0b01101, 5, number 7⟩,
   ⟨"jmp", 0b01110, 5, number 7⟩,
   ⟨"jlta", 0b01111000, 8, number 4⟩,
   ⟨"jlea", 0b01111001, 8, number 4⟩,
   ⟨"jeqa", 0b01111010, 8, number 4⟩,
   ⟨"jgea", 0b01111011, 8, number 4⟩,
   ⟨"jgta", 0b01111100, 8, number 4⟩,
   ⟨"jnea", 0b01111101, 8, number 4⟩,
   ⟨"jmpa", 0b01111110, 8, number 4⟩,
   ⟨"call", 0b01111111, 8, number 4⟩]

def constantEncodings : List Encoding :=
  [⟨"const", 0b1000, 4, number 8⟩,
   ⟨"sconst", 0b1001, 4, number 8⟩,
   ⟨"econst", 0b1010, 4, number 8⟩,
   ⟨"card", 0b11, 2, [(.immediate, ⟨4, 6⟩), (.immediate, ⟨6, 0⟩)]⟩]

def reservedEncodings : List Encoding :=
  [⟨"RES0", 0b001110111, 9, lone⟩,
   ⟨"RES1", 0b001111011, 9, lone⟩,
   ⟨"RES2", 0b001111100, 9, lone⟩,
   ⟨"RES3", 0b001111101, 9, lone⟩]
    ++ (List.range 15).map (fun i => ⟨s!"RES{i + 4}", UInt16.ofNat (0b001111110001 + i), 12, []⟩)
    ++ [⟨"RES19", 0b1011, 4, number 8⟩]

/-- All encodings, in the order in which candidates are tried. -/
def instructionSet : List Encoding :=
  binaryEncodings ++ unaryEncodings ++ jumpEncodings ++ constantEncodings ++ reservedEncodings

def candidates (mnemonic : String) : List Encoding :=
  instructionSet.filter (·.mnemonic == mnemonic)

end BlockComputer.Assembly
