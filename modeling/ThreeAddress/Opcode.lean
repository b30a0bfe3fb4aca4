/-!
# Operators

The operators of the instruction stream. A tag that names none of them is kept as it stands, so
`tag_ofTag` loses nothing.
-/

namespace ThreeAddress

inductive Opcode where
  | assign
  | add
  | sub
  | mult
  | lessThan
  | jump
  | jumpIfFalse
  | print
  | unknown (tag : String)
  deriving DecidableEq, Repr

namespace Opcode

/-- Tags are told apart by case. -/
def ofTag (tag : String) : Opcode :=
  match tag with
  | "ASSIGN" => .assign
  | "ADD" => .add
  | "SUB" => .sub
  | "MULT" => .mult
  | "LT" => .lessThan
  | "JP" => .jump
  | "JPF" => .jumpIfFalse
  | "PRINT" => .print
  | other => .unknown other

def tag : Opcode → String
  | .assign => "ASSIGN"
  | .add => "ADD"
  | .sub => "SUB"
  | .mult => "MULT"
  | .lessThan => "LT"
  | .jump => "JP"
  | .jumpIfFalse => "JPF"
  | .print => "PRINT"
  | .unknown tag => tag

theorem tag_ofTag (t : String) : (ofTag t).tag = t := by
  unfold ofTag
  split <;> rfl

end Opcode

end ThreeAddress
