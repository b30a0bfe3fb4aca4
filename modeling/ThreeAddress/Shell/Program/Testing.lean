import ThreeAddress.Shell.Condition
import ThreeAddress.Shell.Program.Complaint

/-!
# The programs `test` and `[`

How many words there are decides first what an expression of few words means; longer ones are read
by rules for alternatives, for what must hold together, and for single conditions. Each rule takes
words from those that are left.
-/

namespace ThreeAddress.Shell.Program

open Files (Access)

namespace Testing

/-- What is left of an expression. -/
structure Left where
  words : List Octets
  /-- The word that was taken last. -/
  before : Octets
  /-- What comes after the expression. -/
  closing : Option Octets

variable {m : Type → Type} [Monad m] [Access m]

abbrev Test (m : Type → Type) := StateT Left (Eff m)

def lift {α : Type} (action : Eff m α) : Test m α := StateT.lift action

/-- Ends the test with a status of its own. -/
def wrong {α : Type} (e : Complaint) : Test m α := lift do
  complain e
  setStatus 2
  throw .fault

/-- The last word of the expression. -/
def lastWord (l : Left) : Octets := l.words.getLast?.getD l.before

/-- Goes on to the next word. -/
def skip : Test m Unit :=
  modify fun l => { l with words := l.words.tail, before := l.words.head?.getD l.before }

/-- Goes on to the next word, which there must be. -/
def advance : Test m Unit := do
  skip
  let l ← get
  if l.words.isEmpty then wrong (.nothingAfter (lastWord l))

/-- The next word, which is taken. -/
def take : Test m Octets := do
  let word := (← get).words.head?.getD []
  skip
  return word

/-! ### Conditions -/

def isBinary (word : Octets) : Bool :=
  ["=", "!=", "==", "-nt", "-ot", "-ef", "-eq", "-ne", "-lt", "-le", "-gt", "-ge"].contains
    (String.ofList word)

def isLetter (word : Octets) : Bool :=
  match word with
  | ['-', _] => true
  | _ => false

/-- A number of any size, with blanks around it. -/
def integer (text : Octets) : Test m Int := do
  let (negative, digits) := match text.dropWhile isSpace with
    | '+' :: cs => (false, cs)
    | '-' :: cs => (true, cs)
    | cs => (false, cs)
  let (n, rest) := readDigits 10 0 digits
  if rest.length = digits.length || !rest.all isSpace then wrong (.badInteger text)
  else return if negative then -(n : Int) else n

def compares (op : String) (x y : Int) : Bool :=
  match op with
  | "-eq" => x = y
  | "-ne" => x ≠ y
  | "-lt" => x < y
  | "-le" => x ≤ y
  | "-gt" => y < x
  | _ => y ≤ x

/-- Whether the first of two files is there and was changed after the second, or that is not there. -/
def isNewer (a b : Octets) : Test m Bool := do
  match ← lift (Condition.file? true a), ← lift (Condition.file? true b) with
  | some x, some y => return y.changed < x.changed
  | some _, none => return true
  | none, _ => return false

/-- The side of a comparison of numbers, which may be a length. -/
def side (isLength : Bool) (word : Octets) : Test m Int :=
  if isLength then return (word.length : Int) else integer word

/-- A condition on the words before and after an operator. Before each of them a word can ask for its
length. -/
def binary (leftLength : Bool) : Test m Bool := do
  if leftLength then skip
  let a ← take
  let op ← take
  let rightLength := (← get).words.head? = some "-l".toList && 2 ≤ (← get).words.length
  if rightLength then skip
  let b ← take
  let hasLength := leftLength || rightLength
  let refusing (result : Test m Bool) : Test m Bool :=
    if hasLength then wrong (.noLength op) else result
  match String.ofList op with
  | "=" => return a = b
  | "==" => return a = b
  | "!=" => return a ≠ b
  | "-nt" => refusing (isNewer a b)
  | "-ot" => refusing (isNewer b a)
  | "-ef" => refusing (lift (Condition.isSameFile a b))
  | text => do
    let x ← side leftLength a
    let y ← side rightLength b
    return compares text x y

/-- A condition on the word after a letter. -/
def unary : Test m Bool := do
  let word := (← get).words.head?.getD []
  match word with
  | ['-', letter] =>
    if !"erwxNOGfdsScbpLhugktnz".toList.contains letter then wrong (.notUnary word)
    else
      advance
      let operand ← take
      if letter = 't' then
        let _ ← integer operand
        return false
      else lift (Condition.holdsUnary letter operand)
  | word => wrong (.notUnary word)

def single : Test m Bool := do return !(← take).isEmpty

def pair : Test m Bool := do
  match (← get).words with
  | ['!'] :: _ => do
    skip
    return !(← single)
  | word :: _ => do
    if isLetter word then unary else wrong (.nothingAfter (lastWord (← get)))
  | [] => wrong (.nothingAfter (lastWord (← get)))

/-! ### Expressions -/

def isWord (words : List Octets) (i : Nat) (text : String) : Bool := words[i]? = some text.toList

/-- How many words belong to the expression in parentheses that has begun: those before the first
that closes it, or all if there are more than a few. -/
def enclosed (words : List Octets) : Nat :=
  let n := ((words.drop 1).takeWhile (· ≠ [')'])).length + 1
  if n ≤ 4 then min n words.length else words.length

mutual

def term : Nat → Test m Bool
  | 0 => return false
  | fuel + 1 => do
    let words := (← get).words
    if isWord words 0 "!" then
      advance
      return !(← term fuel)
    else if words.isEmpty then wrong (.nothingAfter (lastWord (← get)))
    else if isWord words 0 "(" then
      advance
      let holds ← counted (enclosed (← get).words) fuel
      let l ← get
      match l.words.head? <|> l.closing with
      | none => wrong .unclosed
      | some word => do
        if word ≠ [')'] then wrong (.notClosing word)
        skip
        return holds
    else if 4 ≤ words.length && isWord words 0 "-l" && isBinary (words[2]?.getD []) then binary true
    else if 3 ≤ words.length && isBinary (words[1]?.getD []) then binary false
    else if isLetter (words.head?.getD []) then unary
    else single

def allTerms : Nat → Test m Bool
  | 0 => return false
  | fuel + 1 => do
    let holds ← term fuel
    if isWord (← get).words 0 "-a" then
      skip
      return (← allTerms fuel) && holds
    else return holds

def anyTerms : Nat → Test m Bool
  | 0 => return false
  | fuel + 1 => do
    let holds ← allTerms fuel
    if isWord (← get).words 0 "-o" then
      skip
      return (← anyTerms fuel) || holds
    else return holds

def expression (fuel : Nat) : Test m Bool := do
  if (← get).words.isEmpty then wrong (.nothingAfter (lastWord (← get)))
  anyTerms fuel

def triple : Nat → Test m Bool
  | 0 => return false
  | fuel + 1 => do
    let words := (← get).words
    if isBinary (words[1]?.getD []) then binary false
    else if isWord words 0 "!" then
      advance
      return !(← pair)
    else if isWord words 0 "(" && isWord words 2 ")" then
      skip
      let holds ← single
      skip
      return holds
    else if isWord words 1 "-a" || isWord words 1 "-o" then expression fuel
    else wrong (.notBinary (words[1]?.getD []))

/-- An expression of so many words. -/
def counted (n : Nat) : Nat → Test m Bool
  | 0 => return false
  | fuel + 1 => do
    let words := (← get).words
    match n with
    | 1 => single
    | 2 => pair
    | 3 => triple fuel
    | n =>
      if n = 4 && isWord words 0 "!" then
        advance
        return !(← triple fuel)
      else if n = 4 && isWord words 0 "(" && isWord words 3 ")" then
        skip
        let holds ← pair
        skip
        return holds
      else expression fuel

end

def evaluate (words : List Octets) : Test m Bool := do
  let holds ← counted words.length (8 * words.length + 8)
  match (← get).words with
  | [] => return holds
  | word :: _ => wrong (.extra word)

/-- Tests an expression, of which it is told what comes after it. -/
def runBefore (closing : Option Octets) (words : List Octets) : Eff m Nat := do
  if words.isEmpty then return 1
  else
    let (holds, _) ← (evaluate words).run ⟨words, ← name, closing⟩
    return if holds then 0 else 1

def run (words : List Octets) : Eff m Nat := runBefore none words

/-- A test that ends in a bracket. -/
def runBracketed (words : List Octets) : Eff m Nat := do
  if words.getLast? = some [']'] then runBefore (some [']']) words.dropLast
  else
    complain .missingBracket
    return 2

end Testing

end ThreeAddress.Shell.Program
