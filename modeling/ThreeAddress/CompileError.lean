import ThreeAddress.Opcode
import ThreeAddress.Operand

/-!
# Why a compilation fails

Three causes lie in one instruction of the stream and carry its index; the other two do not. Of an
opcode or an operand a message tells the tag or the text, but the cause carries it as a whole.
-/

namespace ThreeAddress

inductive CompileError where
  /-- The target will not be a declared label. -/
  | unresolvedTarget (index : Nat) (target : Operand)
  /-- The slot, counted from one, is unused where the operator reads or writes it. -/
  | missingOperand (index : Nat) (opcode : Opcode) (slot : Nat)
  /-- The operand is a literal where the operator writes. -/
  | invalidDestination (index : Nat) (operand : Operand)
  /-- The generator stood in one phase and was asked for another. -/
  | phaseViolation (current requested : String)
  | io (message : String)
  deriving DecidableEq, Repr

namespace CompileError

def index? : CompileError → Option Nat
  | .unresolvedTarget index _ => some index
  | .missingOperand index _ _ => some index
  | .invalidDestination index _ => some index
  | .phaseViolation _ _ => none
  | .io _ => none

def message : CompileError → String
  | .unresolvedTarget index target =>
    "Unresolved branch target '" ++ target.text ++ "' at instruction " ++ toString index
  | .missingOperand index opcode slot =>
    "Missing operand a" ++ toString slot ++ " for " ++ opcode.tag ++ " at instruction " ++
      toString index
  | .invalidDestination index operand =>
    "Operand '" ++ operand.text ++ "' cannot be a destination at instruction " ++ toString index
  | .phaseViolation current requested =>
    "Generator phase violation: expected " ++ current ++ ", found " ++ requested
  | .io message => "IO error: " ++ message

end CompileError

end ThreeAddress
