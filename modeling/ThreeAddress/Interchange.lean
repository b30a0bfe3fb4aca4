import ThreeAddress.Diagnostic
import ThreeAddress.Instruction
import ThreeAddress.Json.Decode

/-!
# JSON forms of the stream's types

Records are written as objects with every field. An operator or operand without content is its name;
one with content is an object of that name. Reading takes what `Json.Value.record?` takes; a place
may leave out its index.
-/

namespace ThreeAddress

open Json (Value)

namespace Opcode

def jsonName : Opcode → String
  | .assign => "Assign"
  | .add => "Add"
  | .sub => "Sub"
  | .mult => "Mult"
  | .lessThan => "Lt"
  | .jump => "Jp"
  | .jumpIfFalse => "Jpf"
  | .print => "Print"
  | .unknown _ => "Unknown"

/-- The operator of a name that carries no tag. -/
def ofJsonName? : String → Option Opcode
  | "Assign" => some .assign
  | "Add" => some .add
  | "Sub" => some .sub
  | "Mult" => some .mult
  | "Lt" => some .lessThan
  | "Jp" => some .jump
  | "Jpf" => some .jumpIfFalse
  | "Print" => some .print
  | _ => none

def toJson : Opcode → Value
  | .unknown tag => .choice "Unknown" (.text tag)
  | o => .text o.jsonName

def ofJson? (v : Value) : Option Opcode :=
  match v.choice? with
  | some ("Unknown", some content) => content.text?.map .unknown
  | some (name, content) => if Value.isUnit content then ofJsonName? name else none
  | none => none

end Opcode

namespace Operand

def toJson : Operand → Value
  | .empty => .text "Empty"
  | .immediate literal => .choice "Immediate" (.text literal)
  | .memory name => .choice "Memory" (.text name)
  | .symbol name => .choice "Symbol" (.text name)

def ofJson? (v : Value) : Option Operand :=
  match v.choice? with
  | some ("Empty", content) => if Value.isUnit content then some .empty else none
  | some ("Immediate", some content) => content.text?.map .immediate
  | some ("Memory", some content) => content.text?.map .memory
  | some ("Symbol", some content) => content.text?.map .symbol
  | _ => none

end Operand

namespace Location

def toJson (place : Location) : Value :=
  .record [("filename", .text place.filename), ("line", .nat place.line.toNat),
    ("index", place.index.elim .null fun index => .nat index.toNat)]

def ofJson? (v : Value) : Option Location :=
  match v.record? ["filename", "line", "index"] with
  | some [some filename, some line, index] => do
    let index ← (index.getD .null).orNull? (Value.natBelow? UInt64.size)
    return ⟨← filename.text?, .ofNat (← line.natBelow? UInt32.size), index.map .ofNat⟩
  | _ => none

end Location

namespace Severity

def toJson : Severity → Value
  | .warning => .text "Warning"
  | .note => .text "Note"

def ofJson? (v : Value) : Option Severity :=
  match v.choice? with
  | some ("Warning", content) => if Value.isUnit content then some .warning else none
  | some ("Note", content) => if Value.isUnit content then some .note else none
  | _ => none

end Severity

namespace Diagnostic

def toJson (d : Diagnostic) : Value :=
  .record [("severity", d.severity.toJson), ("message", .text d.message),
    ("location", d.location.toJson)]

def ofJson? (v : Value) : Option Diagnostic :=
  match v.record? ["severity", "message", "location"] with
  | some [some severity, some message, some location] => do
    return ⟨← Severity.ofJson? severity, ← message.text?, ← Location.ofJson? location⟩
  | _ => none

end Diagnostic

namespace Instruction

def toJson (i : Instruction) : Value :=
  .record [("opcode", i.opcode.toJson),
    ("operands", .array [i.a1.toJson, i.a2.toJson, i.a3.toJson]),
    ("location", i.location.toJson)]

def ofJson? (v : Value) : Option Instruction :=
  match v.record? ["opcode", "operands", "location"] with
  | some [some opcode, some (.array [a1, a2, a3]), some location] => do
    return ⟨← Opcode.ofJson? opcode, ← Operand.ofJson? a1, ← Operand.ofJson? a2,
      ← Operand.ofJson? a3, ← Location.ofJson? location⟩
  | _ => none

end Instruction

end ThreeAddress
