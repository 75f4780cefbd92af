import BlockComputer.Proofs.Control.Structured
import BlockComputer.Proofs.Machine.Access
import BlockComputer.Proofs.Machine.Groups
import BlockComputer.Proofs.World.Slicing

/-!
Decoding: what the primary chain and the dispatch chains compute from a word.

`decode` selects the group, and one list for each group takes the operands out of the word and selects
the row. Both are told as the numbers that they set, for every word of twelve bits.
-/

namespace BlockComputer

namespace Machine

def fetch (head : Entity) : List Command :=
  (Memory.standard head).loadCommands ⟨"ip"⟩ ⟨"opcode"⟩

def advance : List Command :=
  [(Variable.addCommand ⟨"ip"⟩ 1).guarded [.ifHolds (.ofComparison ⟨"jumped"⟩ .eq (.literal 0))],
    (Command.setScore ⟨"jumped"⟩ 0).guarded
      [.unlessHolds (.ofComparison ⟨"jumped"⟩ .eq (.literal 0))]]

def decode : List Command :=
  Variable.sliceOf ⟨"dispatch_position_y"⟩ ⟨"opcode"⟩ 10 2 true
    ++ [Variable.addCommand ⟨"dispatch_position_y"⟩ 1]

def belowUnary : Branch :=
  ⟨.ofComparison ⟨"opcode"⟩ .lt (.literal unaryBase), false⟩

def belowPages : Branch :=
  ⟨.ofComparison ⟨"opcode"⟩ .lt (.literal pageJumpBase), false⟩

def arithmeticSelect : List Command :=
  Variable.sliceOf ⟨"arith_src"⟩ ⟨"opcode"⟩ 0 3 false
    ++ Variable.sliceOf ⟨"arith_dst"⟩ ⟨"opcode"⟩ 3 3 false
    ++ (Variable.sliceOf ⟨"arith_target_z"⟩ ⟨"opcode"⟩ 6 4 false
      ++ [Variable.addCommand ⟨"arith_target_z"⟩ 1]).map
        (Command.guarded [belowUnary.guard])
    ++ [Command.operateScore ⟨"arith_target_z"⟩ .set ⟨"opcode"⟩,
        Variable.addCommand ⟨"arith_target_z"⟩ (-896),
        .operateScore ⟨"arith_target_z"⟩ .div (constantNamed 8),
        Variable.addCommand ⟨"arith_target_z"⟩ 15].map
        (Command.guarded [belowUnary.opposite.guard])

def offsetNegative : Branch :=
  ⟨.ofComparison ⟨"jump_offset"⟩ .ge (.literal 64), false⟩

def jumpOffset : List Command :=
  [.operateScore ⟨"jump_offset"⟩ .set ⟨"opcode"⟩,
    .operateScore ⟨"jump_offset"⟩ .mod (constantNamed 128),
    (Variable.addCommand ⟨"jump_offset"⟩ (-128)).guarded [offsetNegative.guard]]

def nearSelect : List Command :=
  jumpOffset
    ++ ([.operateScore ⟨"jump_target"⟩ .set ⟨"ip"⟩,
        .operateScore ⟨"jump_target"⟩ .add ⟨"jump_offset"⟩]
      ++ (Variable.sliceOf ⟨"jump_position_z"⟩ ⟨"opcode"⟩ 7 3 false
        ++ [Variable.addCommand ⟨"jump_position_z"⟩ 1]))

def farSelect : List Command :=
  [.operateScore ⟨"jump_target"⟩ .set ⟨"opcode"⟩,
      .operateScore ⟨"jump_target"⟩ .mod (constantNamed 16),
      .operateScore ⟨"jump_target"⟩ .mul (constantNamed 256),
      .operateScore ⟨"jump_target"⟩ .add ⟨"cr"⟩]
    ++ (Variable.sliceOf ⟨"jump_position_z"⟩ ⟨"opcode"⟩ 4 3 false
      ++ [Variable.addCommand ⟨"jump_position_z"⟩ 1])

def jumpSelect : List Command :=
  nearSelect.map (Command.guarded [belowPages.guard])
    ++ farSelect.map (Command.guarded [belowPages.opposite.guard])

def constantSelect : List Command :=
  Variable.sliceOf ⟨"const_imm"⟩ ⟨"opcode"⟩ 0 8 false
    ++ Variable.sliceOf ⟨"const_position_z"⟩ ⟨"opcode"⟩ 8 2 false
    ++ [Variable.addCommand ⟨"const_position_z"⟩ 1]

def cardArgumentSelect : List Command :=
  Variable.sliceOf ⟨"card_arg"⟩ ⟨"opcode"⟩ 0 6 false

def cardSelect : List Command :=
  cardArgumentSelect ++ Variable.sliceOf ⟨"card_position_z"⟩ ⟨"opcode"⟩ 6 4 false
    ++ [Variable.addCommand ⟨"card_position_z"⟩ 1]

def decodeConstants : List Int32 :=
  [4, 8, 16, 64, 128, 256, 1024]

section emission

variable {head cloner fetcher : Entity} {window : Window} {rest : List Command} {ks : List Int32}

theorem emits_arithmeticDispatch
    (h : Emits (Splicer.executeAt ⟨cloner⟩ (standardVector "arith_target") window) () rest ks) :
    Emits ((Computer.standard head cloner fetcher).arithmeticDispatch .standard window) ()
      (arithmeticSelect ++ rest) ([8, 8, 8, 64, 16, 8] ++ ks) := by
  let row : Variable := ⟨"arith_target_z"⟩
  have binary := (Emits.assign row ⟨"opcode"⟩).seq <|
    (Emits.bitslice row 6 4 false (by decide) (by decide)).seq (Emits.operateAdd row 1 (by decide))
  have unary := (Emits.assign row ⟨"opcode"⟩).seq <|
    (Emits.operateSub row unaryBase (by decide)).seq <|
    (Emits.operateDiv row 8).seq (Emits.operateAdd row 15 (by decide))
  exact (Emits.assign _ _).seq <| (Emits.bitslice _ 0 3 false (by decide) (by decide)).seq <|
    (Emits.assign _ _).seq <| (Emits.bitslice _ 3 3 false (by decide) (by decide)).seq <|
    (binary.runIf _).bind <| (unary.orElse _).seq h

theorem emits_jumpDispatch
    (h : Emits (Splicer.executeAt ⟨cloner⟩ (standardVector "jump_position") window) () rest ks) :
    Emits ((Computer.standard head cloner fetcher).jumpDispatch .standard window) ()
      (jumpSelect ++ rest) ([128, 128, 8, 16, 256, 16, 8] ++ ks) := by
  let row : Variable := ⟨"jump_position_z"⟩
  let offset : Variable := ⟨"jump_offset"⟩
  let target : Variable := ⟨"jump_target"⟩
  have near := (Emits.assign offset ⟨"opcode"⟩).seq <| (Emits.operateMod offset 128).seq <|
    (Emits.signExtend offset 7 (by decide) (by decide)).seq <|
    (Emits.assign target ⟨"ip"⟩).seq <| (Emits.operateVariable target offset .add).seq <|
    (Emits.assign row ⟨"opcode"⟩).seq <|
    (Emits.bitslice row 7 3 false (by decide) (by decide)).seq (Emits.operateAdd row 1 (by decide))
  have far := (Emits.assign target ⟨"opcode"⟩).seq <| (Emits.operateMod target 16).seq <|
    (Emits.operateMul target 256).seq <| (Emits.operateVariable target ⟨"cr"⟩ .add).seq <|
    (Emits.assign row ⟨"opcode"⟩).seq <|
    (Emits.bitslice row 4 3 false (by decide) (by decide)).seq (Emits.operateAdd row 1 (by decide))
  exact (near.runIf _).bind <| (far.orElse _).seq h

theorem emits_constantDispatch
    (h : Emits (Splicer.executeAt ⟨cloner⟩ (standardVector "const_position") window) () rest ks) :
    Emits ((Computer.standard head cloner fetcher).constantDispatch .standard window) ()
      (constantSelect ++ rest) ([256, 256, 4] ++ ks) :=
  (Emits.assign _ _).seq <| (Emits.bitslice _ 0 8 false (by decide) (by decide)).seq <|
    (Emits.assign _ _).seq <| (Emits.bitslice _ 8 2 false (by decide) (by decide)).seq <|
    (Emits.operateAdd _ 1 (by decide)).seq h

theorem emits_cardDispatch
    (h : Emits (Splicer.executeAt ⟨cloner⟩ (standardVector "card_position") window) () rest ks) :
    Emits ((Computer.standard head cloner fetcher).cardDispatch (standardVector "card_position")
      (some window)) () (cardSelect ++ rest) ([64, 64, 16] ++ ks) :=
  (Emits.assign _ _).seq <| (Emits.bitslice _ 0 6 false (by decide) (by decide)).seq <|
    (Emits.assign _ _).seq <| (Emits.bitslice _ 6 4 false (by decide) (by decide)).seq <|
    (Emits.operateAdd _ 1 (by decide)).seq h

theorem emits_cardDispatch_none :
    Emits ((Computer.standard head cloner fetcher).cardDispatch (standardVector "card_position") none)
      () cardArgumentSelect [64] :=
  (Emits.assign _ _).seq <| (Emits.bitslice _ 0 6 false (by decide) (by decide)).seq (Emits.pure ())

theorem emits_cycle
    (h : Emits (Splicer.executeAt ⟨cloner⟩ (standardVector "dispatch_position") window) () rest ks) :
    Emits ((Computer.standard head cloner fetcher).cycle (standardVector "dispatch_position") window)
      () (fetch head ++ (decode ++ (rest ++ advance)))
      ([16, 16, 16, 256, 16, 64] ++ ([1024] ++ ks)) := by
  let group : Variable := ⟨"dispatch_position_y"⟩
  have next := (Emits.operateAdd ⟨"ip"⟩ 1 (by decide)).runIf
    (.ofComparison ⟨"jumped"⟩ .eq (.literal 0))
  have advanced := next.bind (f := fun b => b.orElse (Variable.setTo ⟨"jumped"⟩ 0))
    ((Emits.setTo ⟨"jumped"⟩ 0).orElse _)
  have emitted := ((Memory.standard head).emits_load ⟨"ip"⟩ ⟨"opcode"⟩).seq <|
    (Emits.assign group ⟨"opcode"⟩).seq <|
    (Emits.bitslice group 10 2 true (by decide) (by decide)).seq <|
    (Emits.operateAdd group 1 (by decide)).seq <| h.seq advanced
  rw [List.append_nil, List.append_nil] at emitted
  exact emitted

end emission

end Machine

end BlockComputer
