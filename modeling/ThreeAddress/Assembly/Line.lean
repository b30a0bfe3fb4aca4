import ThreeAddress.Assembly.Inst

/-!
# Lines of assembly text

An output program is a list of lines. `emit` ends every line with a newline, the last one too.
-/

namespace ThreeAddress.Assembly

inductive Line where
  | global (symbol : String)
  | segment (name : String)
  /-- A named region of uninitialised bytes. -/
  | skip (name : String) (bytes : Nat)
  | label (name : String)
  | inst (i : Inst)
  /-- An instruction of a runtime routine, set in by four spaces. -/
  | indented (i : Inst)
  | comment (text : String)
  | blank
  deriving DecidableEq, Repr

namespace Line

def text : Line → String
  | .global symbol => ".global " ++ symbol
  | .segment name => ".section " ++ name
  | .skip name bytes => name ++ ": .skip " ++ toString bytes
  | .label name => name ++ ":"
  | .inst i => i.text
  | .indented i => "    " ++ i.text
  | .comment text => "; " ++ text
  | .blank => ""

def inst? : Line → Option Inst
  | .inst i => some i
  | .indented i => some i
  | _ => none

end Line

def emit (lines : List Line) : String :=
  String.join (lines.map fun line => line.text ++ "\n")

/-- The lines that open every program and declare its entry. -/
def header (entry : String) : List Line :=
  [.global entry, .segment ".text", .label entry]

end ThreeAddress.Assembly
