/-!
# Places in an instruction stream

A place is a line of a named text, counted from one, and for a line that gave an instruction also
that instruction's index in the stream.
-/

namespace ThreeAddress

structure Location where
  filename : String
  line : UInt32
  index : Option UInt64
  deriving DecidableEq, Repr

namespace Location

/-- The place of an instruction that was not read from a text. -/
def unknown : Location := ⟨"<unknown>", 0, none⟩

def text (place : Location) : String :=
  let line := place.filename ++ ":" ++ toString place.line.toNat
  match place.index with
  | some index => line ++ " (#" ++ toString index.toNat ++ ")"
  | none => line

end Location

end ThreeAddress
