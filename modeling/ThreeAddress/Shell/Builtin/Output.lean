import ThreeAddress.Shell.Builtin.Basic
import ThreeAddress.Shell.Condition
import ThreeAddress.Shell.Format

/-!
# Output and tests
-/

namespace ThreeAddress.Shell.Builtin

open Files (Access)

variable {m : Type → Type} [Monad m] [Access m]

def printf (arguments : List Octets) : Eff m Nat := do
  match (← takeOptions [] arguments).2 with
  | [] => fail .noFormat
  | template :: arguments => do
    let f := format template arguments
    f.faults.forM warn
    match f.failure with
    | some e => do
      warn e
      let _ ← emit 1 f.out
      setStatus 2
      throw .fault
    | none => do
      let status ← print f.out
      return if f.faults.isEmpty then status else 1

def test (words : List Octets) : Eff m Nat := do
  return if ← Condition.evaluate words then 0 else 1

/-- A test in brackets, of which the last need only begin its word. -/
def bracket (words : List Octets) : Eff m Nat := do
  if (words.getLast?.bind (·.head?)) = some ']' then test words.dropLast else fail .missingBracket

end ThreeAddress.Shell.Builtin
