import ThreeAddress.Shell.Command
import ThreeAddress.Shell.Number

/-!
# Arithmetic

Expressions over machine words and variables. An expression is evaluated as it is read, so that of
two faults the first that is reached counts; the operands that `&&`, `||` and `?:` pass over are
read without being evaluated.
-/

namespace ThreeAddress.Shell

inductive ArithmeticFault where
  | noPrimary
  | noEnd
  | noColon
  | noParenthesis
  | divisionByZero
  /-- The value of a variable is no number. -/
  | badNumber (text : Octets)
  | readOnly (name : Octets)
  deriving DecidableEq, Repr

namespace Arithmetic

inductive Lexeme where
  | number (n : Int)
  | name (x : Octets)
  | sign (text : String)
  deriving DecidableEq, Repr

/-- Longer signs come before those that they begin with. -/
def signs : List String :=
  ["<<=", ">>=", "==", "<=", "<<", ">=", ">>", "||", "|=", "&&", "&=", "!=", "*=", "/=", "%=",
    "+=", "-=", "^=", "=", "<", ">", "|", "&", "!", "(", ")", "*", "/", "%", "+", "-", "~", "^",
    "?", ":"]

def takeSign? (cs : Octets) : Option (String × Octets) :=
  signs.findSome? fun s =>
    if s.toList.isPrefixOf cs then some (s, cs.drop s.length) else none

/-- The lexemes of a text. What is none is a sign of its own, which nothing can be made of. -/
def lexemes : Nat → Octets → List Lexeme
  | 0, _ => []
  | _ + 1, [] => []
  | fuel + 1, c :: cs =>
    if c = ' ' || c = '\t' || c = '\n' then lexemes fuel cs
    else if c.isDigit then
      let n := Numeral.read none (c :: cs)
      .number n.value :: lexemes fuel n.rest
    else if isNameStart c then
      .name (c :: cs.takeWhile isNameChar) :: lexemes fuel (cs.dropWhile isNameChar)
    else
      match takeSign? (c :: cs) with
      | some (s, rest) => .sign s :: lexemes fuel rest
      | none => .sign (String.ofList [c]) :: lexemes fuel cs

/-- Binary operators by how tightly they bind, the tightest first. -/
def levels : List (List String) :=
  [["*", "/", "%"], ["+", "-"], ["<<", ">>"], ["<", "<=", ">", ">="], ["==", "!="], ["&"], ["^"],
    ["|"]]

/-- How loosely a binary operator binds. -/
def looseness? (op : String) : Option Nat :=
  levels.findIdx? (·.contains op)

def truth (b : Bool) : Int := if b then 1 else 0

/-- The bits of a word. -/
def bits (n : Int) : UInt64 := .ofInt n

def ofBits (b : UInt64) : Int := wrapWord b.toNat

def operate (op : String) (a b : Int) : Except ArithmeticFault Int :=
  match op with
  | "*" => .ok (wrapWord (a * b))
  | "/" => if b = 0 then .error .divisionByZero else .ok (wrapWord (a.tdiv b))
  | "%" => if b = 0 then .error .divisionByZero else .ok (wrapWord (a.tmod b))
  | "+" => .ok (wrapWord (a + b))
  | "-" => .ok (wrapWord (a - b))
  | "<<" => .ok (ofBits (bits a <<< bits b))
  | ">>" => .ok (a >>> (bits b % 64).toNat)
  | "<" => .ok (truth (a < b))
  | "<=" => .ok (truth (a ≤ b))
  | ">" => .ok (truth (b < a))
  | ">=" => .ok (truth (b ≤ a))
  | "==" => .ok (truth (a = b))
  | "!=" => .ok (truth (a ≠ b))
  | "&" => .ok (ofBits (bits a &&& bits b))
  | "^" => .ok (ofBits (bits a ^^^ bits b))
  | "|" => .ok (ofBits (bits a ||| bits b))
  | _ => .error .noPrimary

/-- The variables that an expression can use. -/
structure Scope where
  value : Octets → Option Octets
  isReadOnly : Octets → Bool

structure State where
  rest : List Lexeme
  /-- What was assigned, the last first. -/
  assigned : List (Octets × Int)

abbrev Evaluation := ReaderT Scope (StateT State (Except ArithmeticFault))

def peek? : Evaluation (Option Lexeme) := do return (← get).rest.head?

def advance : Evaluation Unit := modify fun s => { s with rest := s.rest.tail }

def acceptSign (text : String) : Evaluation Bool := do
  if (← peek?) = some (.sign text) then
    advance
    return true
  else return false

def lookup (x : Octets) : Evaluation Int := do
  match (← get).assigned.lookup x with
  | some n => return n
  | none =>
    let text := ((← read).value x).getD []
    match Numeral.whole? none text with
    | some n => return n
    | none => throw (.badNumber text)

def assign (x : Octets) (n : Int) : Evaluation Unit := do
  if (← read).isReadOnly x then throw (.readOnly x)
  modify fun s => { s with assigned := (x, n) :: s.assigned }

/-- The operator of an assignment, if that is what comes after a name. -/
def assignment? (op : String) : Option String :=
  if op = "=" then some ""
  else if op.endsWith "=" && !(["==", "!=", "<=", ">="].contains op) then
    some (op.dropEnd 1).toString
  else none

mutual

def primary (live : Bool) : Nat → Evaluation Int
  | 0 => throw .noPrimary
  | fuel + 1 => do
    let found ← peek?
    advance
    match found with
    | some (.sign "(") => do
      let n ← assignment live fuel
      if !(← acceptSign ")") then throw .noParenthesis
      return n
    | some (.number n) => return n
    | some (.name x) => if live then lookup x else return 0
    | some (.sign "+") => primary live fuel
    | some (.sign "-") => return wrapWord (-(← primary live fuel))
    | some (.sign "!") => return truth ((← primary live fuel) = 0)
    | some (.sign "~") => return -(← primary live fuel) - 1
    | _ => throw .noPrimary

/-- Goes on from a left operand, with operators that bind tighter than the limit. -/
def binary (live : Bool) (limit : Nat) (a : Int) : Nat → Evaluation Int
  | 0 => return a
  | fuel + 1 => do
    match ← peek? with
    | some (.sign op) =>
      match looseness? op with
      | some level =>
        if limit ≤ level then return a
        else do
          advance
          let b ← primary live fuel
          let b ← binary live level b fuel
          let c ← if live then (operate op a b : Except _ _) else pure b
          binary live limit c fuel
      | none => return a
    | _ => return a

def conjunction (live : Bool) : Nat → Evaluation Int
  | 0 => throw .noPrimary
  | fuel + 1 => do
    let a ← primary live fuel
    let a ← binary live levels.length a fuel
    if ← acceptSign "&&" then
      let b ← conjunction (live && a ≠ 0) fuel
      return truth (a ≠ 0 && b ≠ 0)
    else return a

def disjunction (live : Bool) : Nat → Evaluation Int
  | 0 => throw .noPrimary
  | fuel + 1 => do
    let a ← conjunction live fuel
    if ← acceptSign "||" then
      let b ← disjunction (live && a = 0) fuel
      return truth (a ≠ 0 || b ≠ 0)
    else return a

def condition (live : Bool) : Nat → Evaluation Int
  | 0 => throw .noPrimary
  | fuel + 1 => do
    let a ← disjunction live fuel
    if ← acceptSign "?" then
      let b ← assignment (live && a ≠ 0) fuel
      if !(← acceptSign ":") then throw .noColon
      let c ← condition (live && a = 0) fuel
      return if a ≠ 0 then b else c
    else return a

def assignment (live : Bool) : Nat → Evaluation Int
  | 0 => throw .noPrimary
  | fuel + 1 => do
    match (← get).rest with
    | .name x :: .sign op :: rest =>
      match assignment? op with
      | some op => do
        modify fun s => { s with rest }
        let n ← assignment live fuel
        if !live then return n
        let n ← if op = "" then pure n else (operate op (← lookup x) n : Except _ _)
        assign x n
        return n
      | none => condition live fuel
    | _ => condition live fuel

end

/-- Evaluates a text, and gives what it assigns, the last first. -/
def evaluate (scope : Scope) (text : Octets) :
    Except ArithmeticFault (Int × List (Octets × Int)) := do
  let rest := lexemes text.length text
  let (n, s) ← ((assignment true (8 * rest.length + 8)).run scope).run ⟨rest, []⟩
  if s.rest.isEmpty then return (n, s.assigned) else throw .noEnd

end Arithmetic

end ThreeAddress.Shell
