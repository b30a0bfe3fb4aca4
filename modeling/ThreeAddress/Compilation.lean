import ThreeAddress.Generator
import ThreeAddress.Report

/-!
# Compiling a text

From the text of a stream to the text of its program, and the log of doing so.
-/

namespace ThreeAddress

def Entry.event : Entry → Event
  | .loaded index i => .loaded index i
  | .diagnosed d => .diagnosed d

namespace Compilation

def compile (options : Options) (text : String) : Except CompileError String :=
  (Program.generate options (Instruction.ofText text)).map Program.text

/-- What loading a text and generating its program reports, in order. -/
def log (options : Options) (filename text : String) : List Event :=
  let report := Report.ofText filename text
  report.entries.map Entry.event ++ Program.generationEvents options report.instructions

end Compilation

end ThreeAddress
