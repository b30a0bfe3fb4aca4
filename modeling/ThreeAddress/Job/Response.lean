import ThreeAddress.Json.Decode

/-!
# Job responses

What a job answers: the assembly text if it succeeded, else what went wrong.
-/

namespace ThreeAddress.Job

open Json (Value)

structure Response where
  output : String
  success : Bool
  deriving DecidableEq, Repr

namespace Response

def toJson (r : Response) : Value :=
  .record [("output", .text r.output), ("success", .bool r.success)]

def ofJson? (v : Value) : Option Response :=
  match v.record? ["output", "success"] with
  | some [some output, some success] => do return ⟨← output.text?, ← success.bool?⟩
  | _ => none

end Response

end ThreeAddress.Job
