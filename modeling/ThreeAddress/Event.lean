import ThreeAddress.Bindings
import ThreeAddress.Diagnostic
import ThreeAddress.Instruction

/-!
# Events of a compilation

What a compilation did, one event a step, each with a level and a message.
-/

namespace ThreeAddress

inductive Level where
  | warn
  | info
  | debug
  | trace
  deriving DecidableEq, Repr

def Level.text : Level → String
  | .warn => "WARN"
  | .info => "INFO"
  | .debug => "DEBUG"
  | .trace => "TRACE"

inductive Event where
  | diagnosed (diagnostic : Diagnostic)
  | loaded (index : Nat) (instruction : Instruction)
  | targets (index : Nat) (opcode : Opcode) (target : Nat)
  | pastEnd (target length : Nat)
  | discovered (labels : Nat)
  | lowering (index : Nat) (instruction : Instruction)
  | bound (key : Key) (register : Assembly.Register)
  | branchIfZero (index : Nat) (label : String)
  | unsupported (index : Nat) (tag : String)
  | undeclared (index : Nat) (opcode : Opcode) (target : Nat)
  | dropped (index : Nat) (opcode : Opcode) (target : Operand)
  | generated (lines instructions registers labels : Nat)
  deriving DecidableEq, Repr

namespace Event

def level : Event → Level
  | .diagnosed .. => .warn
  | .loaded .. => .debug
  | .targets .. => .debug
  | .pastEnd .. => .warn
  | .discovered .. => .debug
  | .lowering .. => .debug
  | .bound .. => .trace
  | .branchIfZero .. => .trace
  | .unsupported .. => .debug
  | .undeclared .. => .warn
  | .dropped .. => .warn
  | .generated .. => .info

def message : Event → String
  | .diagnosed d => d.location.text ++ ": " ++ d.message
  | .loaded index i => "loaded #" ++ toString index ++ ": " ++ i.text
  | .targets index opcode target =>
    "#" ++ toString index ++ ": " ++ opcode.tag ++ " targets " ++ toString target
  | .pastEnd target length =>
    "jump target " ++ toString target ++ " is past the end of the stream (" ++ toString length ++
      " instructions)"
  | .discovered labels => "discovered " ++ toString labels ++ " jump target(s)"
  | .lowering index i => "#" ++ toString index ++ ": lowering " ++ i.text
  | .bound key register => "bind " ++ key.text ++ " -> " ++ register.text
  | .branchIfZero index label => "  #" ++ toString index ++ ": branch if zero to " ++ label
  | .unsupported index tag =>
    "#" ++ toString index ++ ": unsupported operator '" ++ tag ++ "', emitting comment"
  | .undeclared index opcode target =>
    "#" ++ toString index ++ ": " ++ opcode.tag ++ " to " ++ toString target ++
      " has no declared label"
  | .dropped index opcode target =>
    "#" ++ toString index ++ ": dropping " ++ opcode.tag ++ " to non-numeric target '" ++
      target.text ++ "'"
  | .generated lines instructions registers labels =>
    "generated " ++ toString lines ++ " lines from " ++ toString instructions ++
      " instructions (" ++ toString registers ++ " registers, " ++ toString labels ++ " labels)"

def text (e : Event) : String :=
  e.level.text ++ " " ++ e.message

end Event

end ThreeAddress
