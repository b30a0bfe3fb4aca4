/-!
# JSON values

A value keeps the members of an object in order and with repeats, and a number as it was spelled.
-/

namespace ThreeAddress.Json

/-- The text of a quoted string, or `none` if its escapes hold an unpaired surrogate, which no text
does. -/
abbrev Quoted := Option String

inductive Value where
  | null
  | bool (b : Bool)
  | number (lexeme : String)
  | string (s : Quoted)
  | array (items : List Value)
  | object (members : List (Quoted × Value))
  deriving Repr

namespace Value

def text (s : String) : Value := .string (some s)

def nat (n : Nat) : Value := .number (toString n)

/-- An object from named fields. -/
def record (fields : List (String × Value)) : Value :=
  .object (fields.map fun (name, v) => (some name, v))

/-- A choice with content: an object with the one member that names it. -/
def choice (name : String) (content : Value) : Value :=
  record [(name, content)]

end Value

end ThreeAddress.Json
