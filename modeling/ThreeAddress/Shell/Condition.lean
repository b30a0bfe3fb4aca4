import ThreeAddress.Shell.Streams

/-!
# Tests

The expressions of `test`. A word is an operator only where it can be one: one for a single operand
is an operand itself at the end, and before an operator for two. Each rule begins at the first word
of what it reads and gives the words from the last that it has read.
-/

namespace ThreeAddress.Shell

open Files (Access FilePath)

namespace Condition

inductive Operator where
  | unary (letter : Char)
  | binary (name : String)
  | negation
  | conjunction
  | disjunction
  | opening
  | closing
  deriving DecidableEq, Repr

def binaryOperators : List String :=
  ["=", "!=", "<", ">", "-eq", "-ne", "-ge", "-gt", "-le", "-lt", "-nt", "-ot", "-ef"]

def operator? (word : Octets) : Option Operator :=
  match String.ofList word with
  | "!" => some .negation
  | "-a" => some .conjunction
  | "-o" => some .disjunction
  | "(" => some .opening
  | ")" => some .closing
  | text =>
    if binaryOperators.contains text then some (.binary text)
    else
      match word with
      | ['-', c] => if "rwxefdcbpugkstznhLOGS".toList.contains c then some (.unary c) else none
      | _ => none

def isBinary (word : Octets) : Bool :=
  match operator? word with
  | some (.binary _) => true
  | _ => false

/-- The operator that the first word is, if it is not an operand. -/
def leading? : List Octets → Option Operator
  | [] => none
  | word :: rest =>
    match operator? word, rest with
    | some (.unary _), [] => none
    | some (.unary c), [_] => some (.unary c)
    | some (.unary c), second :: _ => if isBinary second then none else some (.unary c)
    | some .opening, [] => none
    | op, _ => op

variable {m : Type → Type} [Monad m] [Access m]

def number (text : Octets) : Eff m Int := do
  match Numeral.whole? (some 10) text with
  | some n => return n
  | none => fail (.badNumber text)

/-- What is known of a file, if there is one. -/
def file? (follow : Bool) (name : Octets) : Eff m (Option Files.Status) := do
  return (← inspect follow name).toOption

/-- Every file can be read and written, and belongs to who asks. -/
def holdsUnary (letter : Char) (operand : Octets) : Eff m Bool := do
  match letter with
  | 'z' => return operand.isEmpty
  | 'n' => return !operand.isEmpty
  | 't' => do
    let _ ← number operand
    return false
  | 'h' => return (← file? false operand).any (·.kind = .link)
  | 'L' => return (← file? false operand).any (·.kind = .link)
  | letter =>
    let file ← file? true operand
    match letter with
    | 's' => return file.any (0 < ·.size)
    | 'f' => return file.any (·.kind = .file)
    | 'd' => return file.any (·.kind = .directory)
    | 'x' => return file.any (·.executable)
    | 'c' => return file.any (·.kind = .device)
    | 'p' => return file.any (·.kind = .pipe)
    | letter => return file.isSome && "rweOG".toList.contains letter

def isSameFile (a b : Octets) : Eff m Bool := do
  match ← file? true a, ← file? true b with
  | some x, some y => return x.identity = y.identity
  | _, _ => return false

/-- Whether the first of two files was changed after the second. -/
def isNewer (a b : Octets) : Eff m Bool := do
  match ← file? true a, ← file? true b with
  | some x, some y => return y.changed < x.changed
  | _, _ => return false

def isBefore : Octets → Octets → Bool
  | [], b => !b.isEmpty
  | _ :: _, [] => false
  | c :: cs, d :: ds => c < d || (c == d && isBefore cs ds)

def holdsBinary (a : Octets) (op : String) (b : Octets) : Eff m Bool := do
  match op with
  | "=" => return a = b
  | "!=" => return a ≠ b
  | "<" => return isBefore a b
  | ">" => return isBefore b a
  | "-ef" => isSameFile a b
  | "-nt" => isNewer a b
  | "-ot" => isNewer b a
  | op => do
    let x ← number a
    let y ← number b
    match op with
    | "-eq" => return x = y
    | "-ne" => return x ≠ y
    | "-lt" => return x < y
    | "-le" => return x ≤ y
    | "-gt" => return y < x
    | _ => return y ≤ x

/-- A comparison of the first word and the third. -/
def comparison (words : List Octets) : Eff m (Bool × List Octets) := do
  match words with
  | a :: op :: b :: rest => return (← holdsBinary a (String.ofList op) b, b :: rest)
  | [_, op] => fail (.missingOperand op)
  | _ => return (false, words)

mutual

def primary (words : List Octets) : Nat → Eff m (Bool × List Octets)
  | 0 => return (false, words)
  | fuel + 1 => do
    match words with
    | [] => return (false, [])
    | word :: rest =>
      match leading? words with
      | some .opening => do
        if leading? rest = some .closing then return (false, rest)
        else
          let (holds, after) ← disjunction rest fuel
          if leading? after.tail = some .closing then return (holds, after.tail)
          else fail (.unclosedTest)
      | some (.unary letter) => do
        match rest with
        | [] => fail (.missingOperand word)
        | operand :: _ => return (← holdsUnary letter operand, rest)
      | _ =>
        match rest with
        | op :: _ =>
          if isBinary op then comparison words else return (!word.isEmpty, words)
        | [] => return (!word.isEmpty, words)

def negation (words : List Octets) : Nat → Eff m (Bool × List Octets)
  | 0 => return (false, words)
  | fuel + 1 => do
    if leading? words = some .negation then
      let rest := words.tail
      let (holds, after) ← negation rest fuel
      return (!holds, if rest.isEmpty then words else after)
    else primary words fuel

def conjunction (words : List Octets) : Nat → Eff m (Bool × List Octets)
  | 0 => return (false, words)
  | fuel + 1 => do
    let (holds, after) ← negation words fuel
    if leading? after.tail = some .conjunction then
      let (holds', after) ← conjunction after.tail.tail fuel
      return (holds && holds', after)
    else return (holds, after)

def disjunction (words : List Octets) : Nat → Eff m (Bool × List Octets)
  | 0 => return (false, words)
  | fuel + 1 => do
    let (holds, after) ← conjunction words fuel
    if leading? after.tail = some .disjunction then
      let (holds', after) ← disjunction after.tail.tail fuel
      return (holds || holds', after)
    else return (holds, after)

end

/-- Whether there are so few words that parentheses and negations cannot be operands. -/
def isShort (words : List Octets) : Bool := words.length = 3 || words.length = 4

def isComparison : List Octets → Bool
  | [_, op, _] => isBinary op
  | _ => false

def isEnclosed (words : List Octets) : Bool :=
  isShort words && words.head? = some ['('] && words.getLast? = some [')']

/-- Few words without the signs of negation before them, and whether there are any. However many
there are, they negate once. -/
def stripNegations : List Octets → Bool × List Octets
  | [] => (false, [])
  | first :: rest =>
    let words := first :: rest
    if first = ['!'] && isShort words && !isComparison words && !isEnclosed words then
      (true, (stripNegations rest).2)
    else (false, words)

def evaluate (words : List Octets) : Eff m Bool := do
  let (negated, words) := stripNegations words
  let holds ←
    if isComparison words then pure (← comparison words).1
    else
      let words := if isEnclosed words then words.tail.dropLast else words
      let (holds, after) ← disjunction words (8 * words.length + 8)
      match after with
      | operand :: _ :: _ => fail (.strayOperand operand)
      | _ => pure holds
  return holds != negated

end Condition

end ThreeAddress.Shell
