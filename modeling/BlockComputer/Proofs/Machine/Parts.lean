import BlockComputer.Machine.Build
import BlockComputer.Proofs.Emission.Naming

/-!
The parts of a machine, before they are laid out.

All variables of the machine have fixed names, so whatever session the machine is made in, its parts
are the standard ones; only the tags of its entities depend on the session.
-/

namespace BlockComputer.Machine

def Registers.standard : Registers where
  constant := ⟨"cr"⟩
  instruction := ⟨"ip"⟩
  stack := ⟨"sp"⟩
  base := ⟨"bp"⟩
  opcode := ⟨"opcode"⟩
  jumped := ⟨"jumped"⟩
  bankRead := ⟨"reg_src"⟩
  bankWrite := ⟨"reg_dst"⟩
  general := Register.generalNames.map Variable.mk
  scratch := Register.scratchNames.map Variable.mk
  flags := ⟨⟨"LF"⟩, ⟨"LE"⟩, ⟨"EQ"⟩, ⟨"NE"⟩, ⟨"GE"⟩, ⟨"GT"⟩⟩
  cardArgument := ⟨"card_arg"⟩

def registerScores : List (String × Int32) :=
  Register.generalNames.map (·, 0) ++ Register.scratchNames.map (·, 0)
    ++ [("cr", 0), ("ip", 0), ("sp", stackTop), ("bp", stackTop), ("opcode", 0), ("jumped", 0),
      ("reg_src", 0), ("reg_dst", 0), ("LF", 0), ("LE", 0), ("EQ", 0), ("NE", 0), ("GE", 0), ("GT", 0),
      ("card_arg", 0)]

theorem Registers.declares : DeclaresInit Registers.create .standard registerScores := by
  refine Declares.inInit ?_
  rw [registerScores, List.append_assoc]
  refine .bind (.mapM _ _) <| .bind (.mapM _ _) ?_
  exact .bind (.create _ _) <| .bind (.create _ _) <| .bind (.create _ _) <| .bind (.create _ _) <|
    .bind (.create _ _) <| .bind (.create _ _) <| .bind (.create _ _) <| .bind (.create _ _) <|
    .bind (.create _ _) <| .bind (.create _ _) <| .bind (.create _ _) <| .bind (.create _ _) <|
    .bind (.create _ _) <| .bind (.create _ _) <| .bind (.create _ _) (.pure _)

def standardVector (name : String) : Vector3 :=
  ⟨name, ⟨s!"{name}_x"⟩, ⟨s!"{name}_y"⟩, ⟨s!"{name}_z"⟩⟩

def vectorScores (name : String) (initial : Position) : List (String × Int32) :=
  [(s!"{name}_x", initial.x.value), (s!"{name}_y", initial.y.value), (s!"{name}_z", initial.z.value)]

def ArithmeticScores.standard : ArithmeticScores :=
  ⟨⟨"arith_src"⟩, ⟨"arith_dst"⟩, ⟨"arith_a"⟩, ⟨"arith_b"⟩, standardVector "arith_target"⟩

theorem ArithmeticScores.declares : DeclaresInit ArithmeticScores.create .standard
    (("arith_src", 0) :: ("arith_dst", 0) :: ("arith_a", 0) :: ("arith_b", 0) ::
      vectorScores "arith_target" Layout.arithmeticGroup) :=
  Declares.inInit <| .bind (.create _ _) <| .bind (.create _ _) <| .bind (.create _ _) <|
    .bind (.create _ _) <| .bind (.vector _ _) (.pure _)

def JumpScores.standard : JumpScores :=
  ⟨⟨"jump_target"⟩, ⟨"jump_offset"⟩, ⟨"return_address"⟩, standardVector "jump_position"⟩

theorem JumpScores.declares : DeclaresInit JumpScores.create .standard
    (("jump_target", 0) :: ("jump_offset", 0) :: ("return_address", 0) ::
      vectorScores "jump_position" Layout.jumpGroup) :=
  Declares.inInit <| .bind (.create _ _) <| .bind (.create _ _) <| .bind (.create _ _) <|
    .bind (.vector _ _) (.pure _)

def ConstantScores.standard : ConstantScores :=
  ⟨⟨"const_imm"⟩, standardVector "const_position"⟩

theorem ConstantScores.declares : DeclaresInit ConstantScores.create .standard
    (("const_imm", 0) :: vectorScores "const_position" Layout.constantGroup) :=
  Declares.inInit <| .bind (.create _ _) <| .bind (.vector _ _) (.pure _)

theorem Vector3.declares (name : String) (initial : Position) :
    DeclaresInit (inInit (Vector3.create name initial)) (standardVector name)
      (vectorScores name initial) :=
  Declares.inInit (.vector name initial)

def Memory.standard (head : Entity) : Memory :=
  ⟨head, standardVector "mem_index", ⟨"mem_high"⟩, ⟨"mem_low"⟩⟩

def Computer.standard (head cloner fetcher : Entity) : Computer where
  registers := .standard
  memory := .standard head
  splicer := ⟨cloner⟩
  bank := ⟨fetcher⟩

theorem Memory.ensures_create :
    Ensures Memory.create fun memory => ∃ head, memory = .standard head := by
  refine .inInit <| .bind (.any _) fun head _ => ?_
  refine .bind (Declares.vector _ _).returns fun _ address => ?_
  refine .bind (Declares.create _ _).returns fun _ high => ?_
  refine .bind (Declares.create _ _).returns fun _ low => ?_
  subst address high low
  exact .bind (.any _) fun _ _ => .pure ⟨head, rfl⟩

theorem Computer.ensures_create :
    Ensures Computer.create fun c => ∃ head cloner fetcher, c = .standard head cloner fetcher := by
  refine .bind Memory.ensures_create fun _ ⟨head, standard⟩ => ?_
  subst standard
  refine .bind (.any _) fun splicer _ => .bind (.any _) fun bank _ => ?_
  refine .bind Registers.declares.returns fun _ registers => .pure ?_
  subst registers
  exact ⟨head, splicer.cloner, bank.fetcher, rfl⟩

structure Parts where
  computer : Computer
  arithmetic : ChainGroup
  jump : ChainGroup
  constant : ChainGroup
  card : ChainGroup
  bank : ChainGroup
  primary : Chain
  init : List Command

namespace Parts

def make (cards : List (Card Id)) (program : List UInt16) : EmitM Parts := do
  let computer ← Computer.create
  Memory.preload program
  let arithmetic ← computer.arithmeticGroup
  let jump ← computer.jumpGroup
  let constant ← computer.constantGroup
  let card ← computer.cardGroup cards
  let bank ← Bank.group computer.registers
  let primary ← computer.primaryChain [arithmetic, jump, constant, card]
  let init := (← get).init
  return { computer, arithmetic, jump, constant, card, bank, primary, init }

def main (p : Parts) : ChainGroup where
  label := "main"
  onlyChain := false
  chains := [{ label := "init", commands := p.init }, p.primary]

def groups (p : Parts) : List (Position × ChainGroup) :=
  [(Layout.mainGroup, p.main), (Layout.arithmeticGroup, p.arithmetic), (Layout.jumpGroup, p.jump),
    (Layout.constantGroup, p.constant), (Layout.cardGroup, p.card), (Layout.registerBank, p.bank)]

theorem build_eq (cards : List (Card Id)) (program : List UInt16) :
    build cards program = make cards program >>= fun p => liftM (Listing.ofGroups p.groups) := by
  simp only [build, make, bind_assoc, pure_bind]
  rfl

end Parts

end BlockComputer.Machine
