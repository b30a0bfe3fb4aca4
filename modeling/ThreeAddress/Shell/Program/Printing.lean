import ThreeAddress.Shell.Format
import ThreeAddress.Shell.Program.Escapes
import ThreeAddress.Shell.Quoted

/-!
# The program `printf`

A format is used again for as long as it uses arguments and there are any left; absent arguments
count as empty. What is wrong with an argument is said between what is printed before and after it;
what is wrong with the format ends all.
-/

namespace ThreeAddress.Shell.Program

/-- What is printed, and what is said about it. -/
inductive Piece where
  | text (text : Octets)
  | complaint (e : Complaint)

/-- How printing ends before its time. -/
inductive Ending where
  | stop
  | wrong (e : Complaint)

structure Printing where
  arguments : List Octets
  /-- The last come first. -/
  pieces : List Piece
  isFaulty : Bool

/-- A step of printing. -/
abbrev Print := ExceptT Ending (StateM Printing)

namespace Printing

def emit (text : Octets) : Print Unit :=
  modify fun p => { p with pieces := .text text :: p.pieces }

def warn (e : Complaint) : Print Unit :=
  modify fun p => { p with pieces := .complaint e :: p.pieces }

def note (e : Complaint) : Print Unit := do
  warn e
  modify fun p => { p with isFaulty := true }

def wrong {α : Type} (e : Complaint) : Print α := throw (.wrong e)

/-- The next argument. -/
def take? : Print (Option Octets) := do
  let p ← get
  set { p with arguments := p.arguments.tail }
  return p.arguments.head?

/-! ### Numbers as arguments -/

/-- The number of a character that stands after a quotation mark. -/
def characterNumber? : Octets → Option (Nat × Octets)
  | mark :: c :: rest => if mark = '"' || mark = '\'' then some (c.toNat, rest) else none
  | _ => none

/-- Says what is wrong with a numeral. -/
def check (text rest : Octets) (inRange : Bool) : Print Unit := do
  if !inRange then note (.outOfRange text)
  else if !rest.isEmpty then
    note (if rest.length = text.length then .notNumeric text else .notAllNumeric text)

/-- The number that an argument stands for, read in a way of its own unless it is a character. -/
def numberOf {α : Type} (text : Octets) (ofCharacter : Nat → α)
    (readNumeral : Octets → α × Octets × Bool) : Print α := do
  match characterNumber? text with
  | some (n, rest) => do
    if !rest.isEmpty then warn (.ignoredCharacters rest)
    return ofCharacter n
  | none => do
    let (a, rest, inRange) := readNumeral text
    check text rest inRange
    return a

def integer (reading : Option Nat → Octets → Numeral) (text : Octets) : Print Int :=
  numberOf text Int.ofNat fun text =>
    let n := reading none text
    (n.value, n.rest, n.inRange)

def floating (text : Octets) : Print Floating :=
  numberOf text Floating.ofNat fun text =>
    let n := FloatNumeral.read .extended text
    (n.value, n.rest, n.inRange)

/-! ### Directives -/

/-- The letters that a flag rules out. -/
def ruledOut (flag : Char) : List Char :=
  match flag with
  | '\'' => "aAceEosxX".toList
  | 'I' => "aAceEosxX".toList
  | '#' => "cdisu".toList
  | '0' => "cs".toList
  | _ => []

def greatestLength : Nat := 0x7fffffff

/-- A width that an argument gives. -/
def widthArgument : Print Int := do
  match ← take? with
  | none => return 0
  | some text => do
    let n ← integer Numeral.read text
    if n < -0x80000000 || (greatestLength : Int) < n then wrong (.badWidth text) else return n

/-- A precision that an argument gives. A negative one is none. -/
def precisionArgument : Print (Option Nat) := do
  match ← take? with
  | none => return some 0
  | some text => do
    let n ← integer Numeral.read text
    if n < 0 then return none
    else if (greatestLength : Int) < n then wrong (.badPrecision text)
    else return some n.toNat

/-- A width at the start of a text, and the rest. -/
def width (cs : Octets) : Print (Int × Octets) := do
  match cs with
  | '*' :: cs => return (← widthArgument, cs)
  | cs => return ((readDigits 10 0 cs).map Int.ofNat id)

/-- A precision at the start of a text, if there is one, and the rest. -/
def precision (cs : Octets) : Print (Option Nat × Octets) := do
  match cs with
  | '.' :: '*' :: cs => return (← precisionArgument, cs)
  | '.' :: cs => return ((readDigits 10 0 cs).map some id)
  | cs => return (none, cs)

def carryOut (d : Directive) : Print Unit := do
  if greatestLength < d.width || d.precision.any (greatestLength < ·) then wrong .tooLong
  let text := (← take?).getD []
  match d.letter with
  | 's' => emit (d.cutText text)
  | 'c' => emit (d.padded [text.head?.getD '\x00'])
  | letter =>
    if letter = 'd' || letter = 'i' then emit (d.signedText (← integer Numeral.read text))
    else if "ouxX".toList.contains letter then
      emit (d.unsignedText (← integer Numeral.readUnsigned text).toNat)
    else emit (d.floatText .extended (← floating text))

/-- The text of an argument whose escapes count. -/
def escapedArgument : Nat → Octets → Print Unit
  | 0, _ => return ()
  | _ + 1, [] => return ()
  | fuel + 1, '\\' :: cs => do
    let (e, rest) := printedEscape true cs
    escape e
    escapedArgument fuel rest
  | fuel + 1, c :: cs => do
    emit [c]
    escapedArgument fuel cs
where
  escape : Escaped → Print Unit
    | .text text => emit text
    | .stop => throw .stop
    | .wrong e => wrong e

/-- Reads a directive after its percent sign, and carries it out. -/
def directive (cs : Octets) : Print Octets := do
  match cs with
  | '%' :: rest => do
    emit ['%']
    return rest
  | 'b' :: rest => do
    let text := (← take?).getD []
    escapedArgument text.length text
    return rest
  | 'q' :: rest => do
    match ← take? with
    | some text => emit (Quoted.quoteIfNeeded text)
    | none => pure ()
    return rest
  | cs => do
    let flags := cs.takeWhile "I'-+ #0".toList.contains
    let (n, rest) ← width (cs.drop flags.length)
    let hasPrecision := rest.head? = some '.'
    let (p, rest) ← precision rest
    let rest := rest.dropWhile "lLhjtz".toList.contains
    let bad := (if hasPrecision then ['c'] else []) ++ flags.flatMap ruledOut
    let letter := rest.head?.getD '\x00'
    let spec := '%' :: cs.take (cs.length - rest.length) ++ rest.take 1
    if !"aAcdeEfFgGiosuxX".toList.contains letter || bad.contains letter then
      wrong (.badDirective spec)
    else
      carryOut ⟨if n < 0 then '-' :: flags else flags, n.natAbs, p, letter⟩
      return rest.tail

/-- Uses a format once. -/
def once : Nat → Octets → Print Unit
  | 0, _ => return ()
  | _ + 1, [] => return ()
  | fuel + 1, c :: cs => do
    match c with
    | '\\' => do
      let (e, rest) := printedEscape false cs
      escapedArgument.escape e
      once fuel rest
    | '%' => do
      let rest ← directive cs
      once fuel rest
    | c => do
      emit [c]
      once fuel cs

/-- Uses a format for so many arguments at most. -/
def repeated (template : Octets) : Nat → Print Unit
  | 0 => return ()
  | fuel + 1 => do
    let before := (← get).arguments.length
    once template.length template
    let after := (← get).arguments
    match after with
    | [] => return ()
    | text :: _ => if after.length = before then warn (.excess text) else repeated template fuel

variable {m : Type → Type} [Monad m] [Files.Access m]

/-- Prints, and says what is wrong in between. The status is the first one unless that fails. -/
def printPieces (status : Nat) : Octets → List Piece → Eff m Nat
  | text, [] => print text status
  | text, .text more :: pieces => printPieces status (text ++ more) pieces
  | text, .complaint e :: pieces => do
    let result ← print text status
    complain e
    if result ≠ status then return result else printPieces status [] pieces

def run (arguments : List Octets) : Eff m Nat := do
  let words := match arguments with
    | ['-', '-'] :: words => words
    | words => words
  match words with
  | [] => do
    complain .missingOperand
    pointToHelp
    return 1
  | template :: arguments =>
    let (ending, p) :=
      (repeated template (arguments.length + 1)).run.run ⟨arguments, [], false⟩
    let pieces := p.pieces.reverse
    match ending with
    | .ok () => printPieces (if p.isFaulty then 1 else 0) [] pieces
    | .error .stop => printPieces 0 [] pieces
    | .error (.wrong e) => printPieces 1 [] (pieces ++ [.complaint e])

end Printing

end ThreeAddress.Shell.Program
