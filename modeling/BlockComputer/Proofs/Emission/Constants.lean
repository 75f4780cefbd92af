import BlockComputer.Session
import Std.Data.String.ToInt

/-!
The names of constants.

A constant is named after its number, in digits, so different numbers have different variables, and a
variable whose name starts neither with a digit nor with a minus sign is no constant.
-/

namespace BlockComputer

theorem constantNamed_injective {k l : Int32} (h : constantNamed k = constantNamed l) : k = l := by
  have names : k.toInt.repr = l.toInt.repr := congrArg Variable.name h
  exact Int32.toInt_inj.1 (Int.repr_injective names)

def Variable.isWord (v : Variable) : Bool :=
  v.name.toList.head?.any fun c => !c.isDigit && c != '-'

theorem head_natRepr (n : Nat) :
    (n.repr.toList.head?.any fun c => !c.isDigit && c != '-') = false := by
  rw [Nat.toList_repr]
  cases digits : Nat.toDigits 10 n with
  | nil => rfl
  | cons c cs =>
    have digit : c.isDigit = true :=
      Nat.isDigit_of_mem_toDigits (by decide) (by decide) (digits ▸ List.mem_cons_self)
    simp [digit]

theorem not_isWord_constantNamed (k : Int32) : (constantNamed k).isWord = false := by
  have name : (constantNamed k).name = k.toInt.repr := rfl
  rw [Variable.isWord, name]
  cases k.toInt with
  | ofNat n => exact head_natRepr n
  | negSucc n =>
    rw [show (Int.negSucc n).repr = "-" ++ (n + 1).repr from rfl, String.toList_append]
    rfl

theorem Variable.ne_constantNamed {v : Variable} (word : v.isWord) (k : Int32) :
    v ≠ constantNamed k := by
  rintro rfl
  rw [not_isWord_constantNamed] at word
  cases word

/-- The variable is named after no number, so it holds no constant. -/
def Variable.IsForeign (v : Variable) : Prop :=
  ∀ k, v ≠ constantNamed k

theorem Variable.isForeign_of_isWord {v : Variable} (word : v.isWord) : v.IsForeign :=
  v.ne_constantNamed word

end BlockComputer
