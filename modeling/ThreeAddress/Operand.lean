import ThreeAddress.Text.Decimal

/-!
# Operands

A token's first character says what it is: `#` a literal, `@` a memory cell addressed by a name,
anything else a plain name; an empty token is an unused slot. So the text of an operand that was
read is the token (`text_classify`).
-/

namespace ThreeAddress

inductive Operand where
  | empty
  | immediate (literal : String)
  | memory (name : String)
  | symbol (name : String)
  deriving DecidableEq, Repr

namespace Operand

def classify (token : String) : Operand :=
  match token.toList with
  | [] => .empty
  | '#' :: literal => .immediate (String.ofList literal)
  | '@' :: name => .memory (String.ofList name)
  | _ => .symbol token

def text : Operand → String
  | .empty => ""
  | .immediate literal => "#" ++ literal
  | .memory name => "@" ++ name
  | .symbol name => name

def isEmpty : Operand → Bool
  | .empty => true
  | _ => false

def isMemory : Operand → Bool
  | .memory _ => true
  | _ => false

theorem text_classify (token : String) : (classify token).text = token := by
  refine String.toList_inj.1 ?_
  unfold classify
  split
  · next h => rw [h]; rfl
  · next l h => rw [text, String.toList_append, h]; simp
  · next n h => rw [text, String.toList_append, h]; simp
  · rfl

/-- The instruction index a name spells, if it is a numeral below `2 ^ 64`. -/
def address? : Operand → Option Nat
  | .symbol name => (Text.readNumeral? name.toList).filter (· < UInt64.size)
  | _ => none

end Operand

end ThreeAddress
