import ThreeAddress.Location
import ThreeAddress.Opcode
import ThreeAddress.Operand

/-!
# Three-address instructions

An operator, three operand slots, and the place it came from. A jump names its target by index:
`JP` in the first slot, `JPF` in the second.
-/

namespace ThreeAddress

structure Instruction where
  opcode : Opcode
  a1 : Operand
  a2 : Operand
  a3 : Operand
  location : Location
  deriving DecidableEq, Repr

namespace Instruction

def ofTokens (tag a1 a2 a3 : String) : Instruction :=
  ⟨.ofTag tag, .classify a1, .classify a2, .classify a3, .unknown⟩

def text (i : Instruction) : String :=
  "(" ++ i.opcode.tag ++ ", " ++ i.a1.text ++ ", " ++ i.a2.text ++ ", " ++ i.a3.text ++ ")"

/-- The index that a jump refers to, if it spells one. -/
def jumpAddress? (i : Instruction) : Option Nat :=
  match i.opcode with
  | .jump => i.a1.address?
  | .jumpIfFalse => i.a2.address?
  | _ => none

end Instruction

end ThreeAddress
