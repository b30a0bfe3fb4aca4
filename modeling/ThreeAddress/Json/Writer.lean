import ThreeAddress.Json.Value

/-!
# Writing JSON

Compact text has no blanks at all; pretty text puts each item and member on a line of its own, two
spaces deeper than what encloses it, and leaves what is empty on one line.
-/

namespace ThreeAddress.Json

def hexDigits : List Char := "0123456789abcdef".toList

def hexDigitOf (n : Nat) : Char := hexDigits.getD n '0'

/-- A quote, a backslash and the control characters are escaped, by a letter where there is one. -/
def escapeChar (c : Char) : List Char :=
  match c with
  | '"' => ['\\', '"']
  | '\\' => ['\\', '\\']
  | '\n' => ['\\', 'n']
  | '\r' => ['\\', 'r']
  | '\t' => ['\\', 't']
  | '\x08' => ['\\', 'b']
  | '\x0c' => ['\\', 'f']
  | c =>
    if c.toNat < 0x20 then
      ['\\', 'u', '0', '0', hexDigitOf (c.toNat / 16), hexDigitOf (c.toNat % 16)]
    else [c]

/-- What is not text is written as one unpaired surrogate. -/
def quote : Quoted → String
  | some s => String.ofList ('"' :: s.toList.flatMap escapeChar ++ ['"'])
  | none => "\"\\ud800\""

namespace Value

mutual

def compact : Value → String
  | .null => "null"
  | .bool b => if b then "true" else "false"
  | .number lexeme => lexeme
  | .string s => quote s
  | .array items => "[" ++ String.intercalate "," (compactItems items) ++ "]"
  | .object members => "\x7b" ++ String.intercalate "," (compactMembers members) ++ "\x7d"

def compactItems : List Value → List String
  | [] => []
  | v :: vs => v.compact :: compactItems vs

def compactMembers : List (Quoted × Value) → List String
  | [] => []
  | (key, v) :: ms => (quote key ++ ":" ++ v.compact) :: compactMembers ms

end

def indent (depth : Nat) : String := String.ofList (List.replicate (2 * depth) ' ')

/-- Puts parts on lines of their own between two brackets. -/
def block (left right : String) (depth : Nat) : List String → String
  | [] => left ++ right
  | parts =>
    left ++ "\n" ++
      String.intercalate ",\n" (parts.map fun part => indent (depth + 1) ++ part) ++
      "\n" ++ indent depth ++ right

mutual

/-- With the value standing `depth` levels deep. -/
def prettyAt (depth : Nat) : Value → String
  | .array items => block "[" "]" depth (prettyItems (depth + 1) items)
  | .object members => block "\x7b" "\x7d" depth (prettyMembers (depth + 1) members)
  | v => v.compact

def prettyItems (depth : Nat) : List Value → List String
  | [] => []
  | v :: vs => v.prettyAt depth :: prettyItems depth vs

def prettyMembers (depth : Nat) : List (Quoted × Value) → List String
  | [] => []
  | (key, v) :: ms => (quote key ++ ": " ++ v.prettyAt depth) :: prettyMembers depth ms

end

def pretty (v : Value) : String := v.prettyAt 0

end Value

end ThreeAddress.Json
