import ThreeAddress.Instruction
import ThreeAddress.Text.Blank

/-!
# Records

One line of a stream's text. A record has two fields with a tab between: an address, which is not
looked at, and a body of comma-separated tokens in parentheses. Each line is blank, a record that
gives an instruction, or malformed, and no line is two of these.
-/

namespace ThreeAddress

inductive Record where
  | blank
  /-- How many tab-separated fields the line has. -/
  | malformed (fields : Nat)
  /-- With how many tokens come after the third operand. -/
  | instruction (opcode : Opcode) (a1 a2 a3 : Operand) (surplus : Nat)
  deriving DecidableEq, Repr

namespace Record

def isParenthesis (c : Char) : Bool := c == '(' || c == ')'

/-- The tokens of a record's body, the operator's tag first. -/
def tokens (body : List Char) : List (List Char) :=
  ((Text.strip isParenthesis (Text.trim body)).splitOn ',').map Text.trim

/-- Missing tokens are empty. -/
def ofTokens (tokens : List (List Char)) : Record :=
  let token (n : Nat) : String := String.ofList (tokens.getD n [])
  .instruction (.ofTag (token 0)) (.classify (token 1)) (.classify (token 2)) (.classify (token 3))
    (tokens.length - 4)

def ofLine (line : List Char) : Record :=
  match Text.trim line with
  | [] => .blank
  | record =>
    match record.splitOn '\t' with
    | [_, body] => ofTokens (tokens body)
    | fields => .malformed fields.length

end Record

end ThreeAddress
