import ThreeAddress.Json.Value
import ThreeAddress.Text.Decimal

/-!
# What a JSON value holds

Views of a value as a text, a number, a list, a record of named fields or one of several choices. A
record may be an object, whose members come in any order among others that are not asked for, or an
array of the fields in their order. A field may not come twice.
-/

namespace ThreeAddress.Json.Value

def text? : Value → Option String
  | .string s => s
  | _ => none

def bool? : Value → Option Bool
  | .bool b => some b
  | _ => none

/-- A whole number below the bound, spelled with digits alone. -/
def natBelow? (bound : Nat) : Value → Option Nat
  | .number lexeme => (Text.readNumeral? lexeme.toList).filter (· < bound)
  | _ => none

/-- A value that may be null. -/
def orNull? {α : Type} (decode : Value → Option α) : Value → Option (Option α)
  | .null => some none
  | v => (decode v).map some

def list? {α : Type} (decode : Value → Option α) : Value → Option (List α)
  | .array items => items.mapM decode
  | _ => none

/-- The member with this key, `some none` if there is none, and no answer if there are several. -/
def member? (members : List (Quoted × Value)) (name : String) : Option (Option Value) :=
  match members.filter (·.1 == some name) with
  | [] => some none
  | [(_, v)] => some (some v)
  | _ => none

/-- The fields of an object, of those asked for. Every key must be text. -/
def fields? (names : List String) (members : List (Quoted × Value)) :
    Option (List (Option Value)) :=
  if members.all (·.1.isSome) then names.mapM (member? members) else none

/-- The fields of a record in the order of their names, with those that are absent. -/
def record? (names : List String) : Value → Option (List (Option Value))
  | .object members => fields? names members
  | .array items => if items.length = names.length then some (items.map some) else none
  | _ => none

/-- A record whose array form may leave out the last fields. -/
def partialRecord? (names : List String) : Value → Option (List (Option Value))
  | .object members => fields? names members
  | .array items =>
    if items.length ≤ names.length then
      some (items.map some ++ List.replicate (names.length - items.length) none)
    else none
  | _ => none

/-- The name of a choice, and its content if it is an object of one member. -/
def choice? : Value → Option (String × Option Value)
  | .string (some name) => some (name, none)
  | .object [(some name, content)] => some (name, some content)
  | _ => none

/-- Whether a choice without content has none, or null. -/
def isUnit : Option Value → Bool
  | none => true
  | some .null => true
  | _ => false

end ThreeAddress.Json.Value
