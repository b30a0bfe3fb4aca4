import ThreeAddress.Shell.Field
import ThreeAddress.Shell.Home
import ThreeAddress.Shell.Pattern
import ThreeAddress.Shell.Variables
import ThreeAddress.Text.Blank

/-!
# Expanding words

Parameters, command substitutions, arithmetic and tildes are replaced in one pass over a word, which
gives parts; fields are made of the parts, and file names of those fields that are patterns. How a
command is run for its output is a parameter.
-/

namespace ThreeAddress.Shell

open Files (Access FilePath)

/-- How a word, or a part of one, is expanded. -/
structure Mode where
  /-- Whether fields are made of it. -/
  fields : Bool
  /-- Whether it is a pattern. -/
  pattern : Bool
  /-- Whether a tilde may begin it. -/
  tilde : Bool
  /-- Whether tildes may follow an equals sign and colons. -/
  assignment : Bool
  /-- Whether it is the operand of a parameter. -/
  operand : Bool
  quoted : Bool

namespace Mode

def text : Mode := ⟨false, false, false, false, false, false⟩

/-- For the words of a command. -/
def command : Mode := { text with fields := true, tilde := true }

/-- For single words that name something. -/
def single : Mode := { text with tilde := true }

def forAssignment : Mode := { text with assignment := true }

def forPattern : Mode := { text with pattern := true, tilde := true }

/-- Whether quoting is kept in what comes out. -/
def keeps (mode : Mode) : Bool := mode.fields || mode.pattern

end Mode

variable {m : Type → Type} [Monad m] [Access m]

/-! ### Values -/

/-- A value as text of a word. -/
def Mode.marks (mode : Mode) (cs : Octets) : Marked :=
  cs.map fun c =>
    if mode.keeps && mode.quoted && (isMeta c || c == '\\') then .escaped c else .plain c

/-- All arguments in one text. -/
def Mode.arguments (mode : Mode) (c : Context) (apart : Bool) : Marked :=
  let separator : Marked :=
    if mode.fields && (apart || !mode.quoted) then [.plain argumentEnd]
    else mode.marks (c.separators.take 1)
  List.intercalate separator (c.arguments.map mode.marks)

/-- The letters of the settings that are on. -/
def settingLetters (c : Context) : Octets :=
  (Setting.all.reverse.filter c.has).filterMap Setting.letter?

/-- The value of a parameter, if it has one. -/
def Mode.value? (mode : Mode) (c : Context) (name : Octets) : Option Marked :=
  match name with
  | ['$'] => some (mode.marks (natOctets c.process))
  | ['?'] => some (mode.marks (natOctets c.status))
  | ['#'] => some (mode.marks (natOctets c.arguments.length))
  | ['!'] => c.lastJob.map fun n => mode.marks (natOctets n)
  | ['-'] => some (mode.marks (settingLetters c))
  | ['@'] => some (mode.arguments c true)
  | ['*'] => some (mode.arguments c false)
  | name =>
    if name.all Char.isDigit then
      let n := Nat.ofDigitChars 10 name 0
      (if n = 0 then some c.name else c.arguments[n - 1]?).map mode.marks
    else (c.value? name).map mode.marks

/-- The part that the value of a parameter makes. -/
def Mode.part (mode : Mode) (c : Context) (name : Octets) (text : Marked) : Part :=
  if !mode.quoted then ⟨.separators, text⟩
  else if name = ['@'] && !c.arguments.isEmpty then ⟨.arguments, text⟩
  else ⟨.none, text⟩

def flatten (parts : List Part) : Marked := parts.flatMap (·.text)

/-! ### Trimming -/

/-- The first of some ways to cut a text in two of which a part fits. -/
def cut? (text : Marked) (fits : Marked → Bool) (take : Nat → Marked × Marked) (lengths : List Nat) :
    Marked :=
  match lengths.find? fun n => fits (take n).1 with
  | some n => (take n).2
  | none => text

/-- Cuts off what fits a pattern at one end. A part fits if it does up to where an argument ends. -/
def trim (op : Operation) (pattern : Octets) (text : Marked) : Marked :=
  let p := Pattern.ofText pattern
  let fits (part : Marked) : Bool := p.covers (part.octets.takeWhile (· != argumentEnd))
  let shortest := List.range (text.length + 1)
  -- Looked at from the start, the text is over where an argument ends.
  let fromStart := List.range ((text.octets.takeWhile (· != argumentEnd)).length + 1)
  let start (n : Nat) : Marked × Marked := (text.take n, text.drop n)
  let stop (n : Nat) : Marked × Marked := (text.drop (text.length - n), text.take (text.length - n))
  match op with
  | .trimPrefix false => cut? text fits start fromStart
  | .trimPrefix true => cut? text fits start shortest.reverse
  | .trimSuffix false => cut? text fits stop shortest
  | .trimSuffix true => cut? text fits stop (fromStart.map (text.length - ·))
  | _ => text

/-! ### Words -/

/-- The name of a user that a tilde before such a rest of a word goes with, which may be empty. -/
def tildeUser? (assignment : Bool) : Word → Option Octets
  | [] => some []
  | .char c :: w =>
    if c == '/' || (assignment && c == ':') then some []
    else (tildeUser? assignment w).map (c :: ·)
  | _ => none

/-- The home directory that a character stands for, with such a rest of a word, and how many of the
characters of the rest belong to it. -/
def tildeHome? (isTilde assignment : Bool) (w : Word) : Eff m (Option (Octets × Nat)) := do
  match isTilde, tildeUser? assignment w with
  | true, some user => return (← homeOf? user).map (·, user.length)
  | _, _ => return none

def evaluateArithmetic (text : Octets) : Eff m Int := do
  let c ← context
  let scope : Arithmetic.Scope := ⟨c.value?, fun name => (c.lookup? name).any (·.readOnly)⟩
  match Arithmetic.evaluate scope text with
  | .error e => fail (.arithmetic e text)
  | .ok (n, assigned) => do
    for (name, value) in assigned.reverse do assign name (intOctets value)
    return n

/-- Whether a place is between quotes, and whether these are to be left out. -/
inductive Quotes where
  | none
  | kept
  /-- Around all arguments alone, which are no field if there are none of them. -/
  | dropped
  deriving DecidableEq, Repr

/-- What is known at a place in a word. -/
structure Place where
  /-- Whether a tilde here stands for a directory. -/
  tilde : Bool
  equalsSeen : Bool
  quoting : Quotes
  /-- How many characters are passed over. -/
  passing : Nat

def Place.start (mode : Mode) : Place := ⟨mode.tilde, false, .none, 0⟩

/-- The place after a character, where one that begins the value of an assignment or goes on with it
may be followed by a tilde. -/
def Place.past (here : Place) (mode : Mode) (c : Char) : Place :=
  let equals := mode.assignment && c == '=' && !here.equalsSeen
  { here with
    tilde := equals || (mode.assignment && c == ':')
    equalsSeen := here.equalsSeen || equals }

/-- Whether all arguments and a quotation mark come next. -/
def isAllArguments : Word → Bool
  | .parameter ['@'] .value false _ :: .quote :: _ => true
  | _ => false

/-- The place after a quotation mark with such a rest, and whether the mark is kept. -/
def Place.pastQuote (here : Place) (w : Word) : Place × Bool :=
  match here.quoting with
  | .kept => ({ here with tilde := false, quoting := .none }, true)
  | .dropped => ({ here with tilde := false, quoting := .none }, false)
  | .none =>
    if isAllArguments w then ({ here with tilde := false, quoting := .dropped }, false)
    else ({ here with tilde := false, quoting := .kept }, true)

/-- The part of a character that is not special. -/
def Mode.literal (mode : Mode) (inQuotes : Bool) (c : Char) : Part :=
  ⟨if mode.operand && !mode.quoted && !inQuotes then .separators else .none, [.plain c]⟩

/-- Puts a part before others, joined with the first if both are split in the same way. -/
def joinPart (p : Part) : List Part → List Part
  | [] => [p]
  | q :: parts =>
    if p.splitting = q.splitting then ⟨p.splitting, p.text ++ q.text⟩ :: parts
    else p :: q :: parts

/-- The output of a command as part of a word, without the newlines at its end. -/
def Mode.output (mode : Mode) (text : Octets) : Part :=
  let text := Text.stripEnd (· == '\n') (text.filter (· != '\x00'))
  ⟨if mode.quoted then .none else .separators, mode.marks text⟩

/-- What is done with a parameter whose operand has been passed over, as its value is used. -/
def Mode.used (mode : Mode) (name : Octets) (op : Operation) (value : Option Marked) :
    Eff m (List Part) := do
  let c ← context
  match value with
  | none => do
    if c.has .nounset then fail (.notSet name)
    if op = .length then return [mode.part c name (mode.marks ['0'])] else return []
  | some value =>
    if op = .length then
      -- Without separators nothing is counted between arguments.
      let isCounted (c' : Char) : Bool := c' != argumentEnd || !c.separators.isEmpty
      let n := (value.octets.filter isCounted).length
      return [mode.part c name (mode.marks (natOctets n))]
    else return [mode.part c name value]

section

variable (substitute : Option Command → Eff m Octets)

mutual

/-- Expands the pieces of a word from left to right. -/
def expandPieces (mode : Mode) (here : Place) : Word → Eff m (List Part)
  | [] => return []
  | .quote :: w => do
    let (after, kept) := here.pastQuote w
    let rest ← expandPieces mode after w
    return if mode.keeps && kept then joinPart ⟨.none, [.quote]⟩ rest else rest
  | .char c :: w => do
    if here.passing ≠ 0 then expandPieces mode { here with passing := here.passing - 1 } w
    else
      match ← tildeHome? (c == '~' && here.tilde) mode.assignment w with
      | some (home, passing) => do
        let rest ← expandPieces mode { here with tilde := false, passing } w
        return ⟨.none, { mode with quoted := true }.marks home⟩ :: rest
      | none => do
        let rest ← expandPieces mode (here.past mode c) w
        return joinPart (mode.literal (here.quoting ≠ .none) c) rest
  | .escaped c :: w => do
    let rest ← expandPieces mode { here with tilde := false } w
    return joinPart ⟨.none, [if mode.keeps then .escaped c else .plain c]⟩ rest
  | p :: w => do
    let parts ← expandPiece { mode with quoted := mode.quoted || here.quoting ≠ .none } p
    return parts ++ (← expandPieces mode { here with tilde := false } w)

/-- Expands a piece that is no character. -/
def expandPiece (mode : Mode) : Piece → Eff m (List Part)
  | .substitution body => do return [mode.output (← substitute body)]
  | .arithmetic w => do
    let text ← expandPieces .text (.start .text) w
    let n ← evaluateArithmetic (flatten text).octets
    return [mode.output (intOctets n)]
  | .parameter name op emptyToo w => do
    let c ← context
    if op = .unknown then fail .badSubstitution
    let value := mode.value? c name
    let value := if emptyToo && value == some [] then none else value
    let operand := { mode with tilde := true, operand := true }
    match op, value with
    | .orDefault, none => expandPieces operand (.start operand) w
    | .alternative, none => return [mode.part c name []]
    | .alternative, some _ => expandPieces operand (.start operand) w
    | .orAssign, none => do
      let text := (flatten (← expandPieces .single (.start .single) w)).octets
      assign name text
      mode.used name .value (mode.value? (← context) name)
    | .orFail, none => do
      let text := (flatten (← expandPieces .single (.start .single) w)).octets
      if !w.isEmpty then fail (.demanded name text)
      else if emptyToo then fail (.notSetOrNull name)
      else fail (.notSet name)
    | .trimSuffix _, some text => do
      let pattern := (flatten (← expandPieces .forPattern (.start .forPattern) w)).pattern
      return [mode.part c name (trim op pattern text)]
    | .trimPrefix _, some text => do
      let pattern := (flatten (← expandPieces .forPattern (.start .forPattern) w)).pattern
      return [mode.part c name (trim op pattern text)]
    | op, value => mode.used name op value
  | _ => return []

end

/-- Expands a word to one text. -/
def expandText (mode : Mode) (w : Word) : Eff m Octets := do
  return (flatten (← expandPieces substitute mode (.start mode) w)).octets

def expandPattern (w : Word) : Eff m Pattern := do
  let parts ← expandPieces substitute .forPattern (.start .forPattern) w
  return Pattern.ofText (flatten parts).pattern

end

/-! ### File names -/

/-- Whether a step of a pattern stands for names other than its own. -/
def isWild : Octets → Bool
  | '\\' :: _ :: cs => isWild cs
  | '*' :: _ => true
  | '?' :: _ => true
  | '[' :: cs => closes (if cs.head? = some '!' then cs.tail else cs) || isWild cs
  | _ :: cs => isWild cs
  | [] => false
where
  /-- Whether a bracket is closed, though not at once. -/
  closes : Octets → Bool
    | '\\' :: _ :: cs => cs.contains ']'
    | _ :: cs => cs.contains ']'
    | [] => false

def unescape : Octets → Octets
  | '\\' :: c :: cs => c :: unescape cs
  | c :: cs => c :: unescape cs
  | [] => []

/-- The steps of a pattern, between slashes. -/
def patternSteps (pattern : Octets) : List Octets := pattern.splitOn '/'

/-- The names in a directory that a step of a pattern stands for. A name that begins with a dot must
be asked for. -/
def matchingNames (directory step : Octets) : Eff m (List Octets) := do
  let hidden := (unescape step).head? = some '.'
  let p ← locate (if directory.isEmpty then ['.'] else directory)
  match ← (Access.entries p : m _) with
  | .error _ => return []
  | .ok names =>
    let names := names.map Shell.octets ++ [['.'], ['.', '.']]
    return names.filter fun name =>
      (hidden || name.head? ≠ some '.') && (Pattern.ofText step).covers name

/-- The paths that the steps of a pattern stand for, after a path that leads to them. -/
def matchingPaths (before : Octets) : List Octets → Eff m (List Octets)
  | [] => return []
  | [step] => do
    if isWild step then return (← matchingNames before step).map (before ++ ·)
    else
      let path := before ++ unescape step
      match ← (Access.canonical (← locate path) : m _) with
      | .ok _ => return [path]
      | .error _ => return []
  | step :: steps => do
    if isWild step then
      let paths ← (← matchingNames before step).mapM fun name =>
        matchingPaths (before ++ name ++ ['/']) steps
      return paths.flatten
    else matchingPaths (before ++ unescape step ++ ['/']) steps

/-- The order of byte strings. -/
def Octets.le : Octets → Octets → Bool
  | [], _ => true
  | _ :: _, [] => false
  | a :: as, b :: bs => a < b || (a == b && Octets.le as bs)

/-- The file names that a field stands for, or the field itself if there are none. -/
def fileNames (field : Marked) : Eff m (List Octets) := do
  if (← context).has .noglob || !field.hasWildcard then return [field.octets]
  else
    let steps := patternSteps field.pattern
    if !steps.any isWild then return [field.octets]
    else
      let paths ← matchingPaths [] steps
      return if paths.isEmpty then [field.octets] else paths.mergeSort Octets.le

/-- Expands words to the fields that they make. -/
def expandFields (substitute : Option Command → Eff m Octets) (words : List Word) :
    Eff m (List Octets) := do
  let fieldsOf (w : Word) : Eff m (List Octets) := do
    let parts ← expandPieces substitute .command (.start .command) w
    return ((← (fields (← context).separators parts).mapM fileNames)).flatten
  return (← words.mapM fieldsOf).flatten

end ThreeAddress.Shell
