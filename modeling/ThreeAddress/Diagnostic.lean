import ThreeAddress.Location

/-!
# Diagnostics

What the loader tolerated: a warning for a record it left out, a note for one it shortened.
-/

namespace ThreeAddress

inductive Severity where
  | warning
  | note
  deriving DecidableEq, Repr

def Severity.text : Severity → String
  | .warning => "warning"
  | .note => "note"

structure Diagnostic where
  severity : Severity
  message : String
  location : Location
  deriving DecidableEq, Repr

def Diagnostic.text (d : Diagnostic) : String :=
  d.location.text ++ ": " ++ d.severity.text ++ ": " ++ d.message

end ThreeAddress
