import ThreeAddress.Diagnostic
import ThreeAddress.Record
import ThreeAddress.Text.Lines

/-!
# Reports of a loaded stream

Reading a text keeps one ordered list of entries: the instructions loaded and the diagnostics
issued, as their lines came. Instructions are numbered from zero as they are loaded, lines from one
as they stand in the text.
-/

namespace ThreeAddress

inductive Entry where
  | loaded (index : Nat) (instruction : Instruction)
  | diagnosed (diagnostic : Diagnostic)
  deriving DecidableEq, Repr

namespace Entry

def instruction? : Entry → Option Instruction
  | .loaded _ i => some i
  | .diagnosed _ => none

def diagnostic? : Entry → Option Diagnostic
  | .loaded _ _ => none
  | .diagnosed d => some d

end Entry

namespace Record

def malformedMessage (fields : Nat) : String :=
  "skipping record: expected 2 tab-separated fields, found " ++ toString fields

def surplusMessage (surplus : Nat) : String :=
  "ignoring " ++ toString surplus ++ " operand(s) past a3"

/-- What the record on the given line yields when `index` instructions came before it. -/
def entries (filename : String) (line index : Nat) : Record → List Entry
  | .blank => []
  | .malformed fields =>
    [.diagnosed ⟨.warning, malformedMessage fields, ⟨filename, .ofNat line, none⟩⟩]
  | .instruction opcode a1 a2 a3 surplus =>
    let loaded := .loaded index ⟨opcode, a1, a2, a3, ⟨filename, .ofNat line, some (.ofNat index)⟩⟩
    if surplus = 0 then [loaded]
    else [.diagnosed ⟨.note, surplusMessage surplus, ⟨filename, .ofNat line, none⟩⟩, loaded]

/-- How many instructions the record gives. -/
def count : Record → Nat
  | .instruction .. => 1
  | _ => 0

def entriesFrom (filename : String) : Nat → Nat → List Record → List Entry
  | _, _, [] => []
  | line, index, r :: rs =>
    r.entries filename line index ++ entriesFrom filename (line + 1) (index + r.count) rs

end Record

structure Report where
  entries : List Entry
  deriving DecidableEq, Repr

namespace Report

def instructions (r : Report) : List Instruction :=
  r.entries.filterMap Entry.instruction?

def diagnostics (r : Report) : List Diagnostic :=
  r.entries.filterMap Entry.diagnostic?

/-- Records left out entirely. -/
def skipped (r : Report) : Nat :=
  r.diagnostics.countP (·.severity = .warning)

def ofText (filename text : String) : Report :=
  ⟨Record.entriesFrom filename 1 0 ((Text.lines text.toList).map Record.ofLine)⟩

end Report

/-- The instructions of a text that has no file name. -/
def Instruction.ofText (text : String) : List Instruction :=
  (Report.ofText "<input>" text).instructions

end ThreeAddress
