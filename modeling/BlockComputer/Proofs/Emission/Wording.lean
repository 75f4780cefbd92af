import BlockComputer.Proofs.Emission.Constants
import BlockComputer.Command
import Mathlib.Data.List.Infix

/-!
The text that sets a number.

A constant is set by one command, and that command's text is its own: the words that the other commands
start with are different ones, and of two commands that set scores the texts differ in the name or in
the number.
-/

namespace BlockComputer

def setNumber (k : Int32) : Command :=
  .setScore (constantNamed k) k

def Starts (word text : String) : Prop :=
  word.toList <+: text.toList

theorem Starts.refl (word : String) : Starts word word :=
  List.prefix_rfl

theorem Starts.append {word text : String} (h : Starts word text) (rest : String) :
    Starts word (text ++ rest) := by
  rw [Starts, String.toList_append]
  exact h.trans (List.prefix_append _ _)

namespace Command

/-- What the text of the command starts with, whatever its operands are. -/
def opening : Command → String
  | .placeholder | .raw _ => ""
  | .addObjective => "scoreboard objectives add "
  | .setScore .. => "scoreboard players set "
  | .addScore .. => "scoreboard players add "
  | .removeScore .. => "scoreboard players remove "
  | .resetScore _ => "scoreboard players reset "
  | .operateScore .. => "scoreboard players operation "
  | .getScore _ => "scoreboard players get "
  | .getCount _ => "data get block "
  | .setCount .. => "data modify block "
  | .fill .. => "fill "
  | .clone .. => "clone "
  | .summon _ => "summon "
  | .kill _ => "kill "
  | .teleport .. => "tp "
  | .tellScore _ => "tellraw @a \x7b\"score\":\x7b\"name\":\""
  | .execute .. => "execute "

theorem starts_render (c : Command) : Starts c.opening c.render := by
  cases c with
  | placeholder | raw => exact List.nil_prefix
  | resetScore | getScore | kill => exact (Starts.refl _).append _
  | addObjective => exact ((Starts.refl _).append _).append _
  | setScore | addScore | removeScore | getCount | teleport | execute =>
    exact (((Starts.refl _).append _).append _).append _
  | tellScore => exact ((((Starts.refl _).append _).append _).append _).append _
  | operateScore | fill | summon =>
    exact (((((Starts.refl _).append _).append _).append _).append _).append _
  | setCount | clone =>
    exact ((((((Starts.refl _).append _).append _).append _).append _).append _).append _

end Command

theorem eq_of_append_blank {a b m n : List Char} (left : ' ' ∉ m) (right : ' ' ∉ n)
    (same : a ++ ' ' :: m = b ++ ' ' :: n) : a = b ∧ m = n := by
  rcases List.append_eq_append_iff.1 same with ⟨x, rfl, rest⟩ | ⟨x, rfl, rest⟩
  · cases x with
    | nil => exact ⟨(List.append_nil a).symm, List.tail_eq_of_cons_eq rest⟩
    | cons c x =>
      rw [List.cons_append, List.cons.injEq] at rest
      exact absurd (rest.2 ▸ by simp) left
  · cases x with
    | nil => exact ⟨List.append_nil b, (List.tail_eq_of_cons_eq rest).symm⟩
    | cons c x =>
      rw [List.cons_append, List.cons.injEq] at rest
      exact absurd (rest.2 ▸ by simp) right

theorem isDigit_or_minus_of_mem_repr {n : Int} {c : Char} (mem : c ∈ n.repr.toList) :
    c.isDigit ∨ c = '-' := by
  have digit {m : Nat} (mem : c ∈ m.repr.toList) : c.isDigit := by
    rw [Nat.toList_repr] at mem
    exact Nat.isDigit_of_mem_toDigits (by decide) (by decide) mem
  cases n with
  | ofNat m => exact .inl (digit mem)
  | negSucc m =>
    rw [show (Int.negSucc m).repr = "-" ++ (m + 1).repr from rfl, String.toList_append, List.mem_append] at mem
    exact mem.symm.imp digit List.mem_singleton.1

theorem blank_notMem_repr (n : Int) : ' ' ∉ n.repr.toList :=
  fun mem => absurd (isDigit_or_minus_of_mem_repr mem) (by decide)

theorem render_setScore (v : Variable) (n : Int32) : (Command.setScore v n).render.toList =
    "scoreboard players set ".toList ++ (v.name.toList ++ " vars".toList ++ ' ' :: n.toInt.repr.toList) := by
  change ("scoreboard players set " ++ (v.name ++ " " ++ "vars") ++ " " ++ n.toInt.repr).toList = _
  simp only [String.toList_append, List.append_assoc]
  rfl

theorem render_setScore_inj {u v : Variable} {m n : Int32}
    (same : (Command.setScore u m).render = (Command.setScore v n).render) : u = v ∧ m = n := by
  have lists := congrArg String.toList same
  rw [render_setScore, render_setScore, List.append_cancel_left_eq] at lists
  obtain ⟨names, numbers⟩ := eq_of_append_blank (blank_notMem_repr _) (blank_notMem_repr _) lists
  rw [List.append_cancel_right_eq, String.toList_inj] at names
  obtain ⟨u⟩ := u
  obtain ⟨v⟩ := v
  exact ⟨congrArg Variable.mk names, Int32.toInt_inj.1 (Int.repr_injective (String.toList_inj.1 numbers))⟩

/-- A text that sets a score was not made in another way, unless it was given as a text. -/
theorem eq_setScore_of_render {c : Command} {v : Variable} {n : Int32}
    (same : c.render = (Command.setScore v n).render) :
    c = .setScore v n ∨ ∃ text, c = .raw text := by
  have starts := c.starts_render
  rw [same] at starts
  have either := List.prefix_or_prefix_of_prefix starts (Command.setScore v n).starts_render
  cases c with
  | raw text => exact .inr ⟨text, rfl⟩
  | setScore u m =>
    obtain ⟨rfl, rfl⟩ := render_setScore_inj same
    exact .inl rfl
  | placeholder =>
    have lists := congrArg String.toList same
    rw [render_setScore] at lists
    cases lists
  | _ =>
    simp only [Command.opening] at either
    exact absurd either (by decide)

end BlockComputer
