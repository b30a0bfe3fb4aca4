import ThreeAddress.Json.Token

/-!
# Reading JSON

Tokens are read one at a time by a machine that holds what is open around the place it has reached
and what may come there. `Value.ofText?` accepts one value with nothing but blanks around it, nested
as deep as it likes.
-/

namespace ThreeAddress.Json

/-- An array or object that has begun and not ended, with what it holds so far. -/
inductive Enclosing where
  | array (items : List Value)
  /-- The member with this key is being read. -/
  | object (members : List (Quoted × Value)) (key : Quoted)

/-- What may come next. -/
inductive Reading where
  | value (around : List Enclosing)
  | firstItem (around : List Enclosing)
  | firstKey (around : List Enclosing)
  | key (around : List Enclosing) (members : List (Quoted × Value))
  | colon (around : List Enclosing) (members : List (Quoted × Value)) (key : Quoted)
  /-- A value has just ended. -/
  | ended (around : List Enclosing) (v : Value)

namespace Reading

/-- Reads the token that a value begins with. -/
def beginValue (around : List Enclosing) : Token → Option Reading
  | .null => some (.ended around .null)
  | .bool b => some (.ended around (.bool b))
  | .number lexeme => some (.ended around (.number lexeme))
  | .string s => some (.ended around (.string s))
  | .leftBracket => some (.firstItem around)
  | .leftBrace => some (.firstKey around)
  | _ => none

/-- Reads the token after a value. -/
def endValue (v : Value) : List Enclosing → Token → Option Reading
  | .array items :: around, .comma => some (.value (.array (items ++ [v]) :: around))
  | .array items :: around, .rightBracket => some (.ended around (.array (items ++ [v])))
  | .object members k :: around, .comma => some (.key around (members ++ [(k, v)]))
  | .object members k :: around, .rightBrace =>
    some (.ended around (.object (members ++ [(k, v)])))
  | _, _ => none

def step : Reading → Token → Option Reading
  | .value around, t => beginValue around t
  | .firstItem around, .rightBracket => some (.ended around (.array []))
  | .firstItem around, t => beginValue (.array [] :: around) t
  | .firstKey around, .rightBrace => some (.ended around (.object []))
  | .firstKey around, .string k => some (.colon around [] k)
  | .firstKey _, _ => none
  | .key around members, .string k => some (.colon around members k)
  | .key _ _, _ => none
  | .colon around members k, .colon => some (.value (.object members k :: around))
  | .colon _ _ _, _ => none
  | .ended around v, t => endValue v around t

def result? : Reading → Option Value
  | .ended [] v => some v
  | _ => none

end Reading

namespace Value

def ofTokens? (ts : List Token) : Option Value := do
  (← ts.foldlM Reading.step (.value [])).result?

def ofText? (text : String) : Option Value := do
  ofTokens? (← scan text.toList)

end Value

end ThreeAddress.Json
