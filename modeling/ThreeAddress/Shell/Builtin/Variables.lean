import ThreeAddress.Shell.Builtin.Basic

/-!
# Variables and their properties
-/

namespace ThreeAddress.Shell.Builtin

open Files (Access)

variable {m : Type → Type} [Monad m] [Access m]

/-- A word as a name, and the value that it gives it. -/
def splitAssignment (word : Octets) : Octets × Option Octets :=
  let name := word.takeWhile (· != '=')
  (name, if name.length < word.length then some (word.drop (name.length + 1)) else none)

/-- The order of byte strings. -/
def precedes : Octets → Octets → Bool
  | [], _ => true
  | _ :: _, [] => false
  | a :: as, b :: bs => a < b || (a == b && precedes as bs)

/-- Tells of variables by name, each after a word. -/
def listVariables (before : Octets) (isTold : Variable → Bool) : Eff m Nat := do
  let told := (← context).vars.filter (isTold ·.2)
  let sorted := told.mergeSort fun a b => precedes a.1 b.1
  print (sorted.flatMap fun (name, v) => before ++ v.value.elim name (definition name) ++ ['\n'])

/-- Gives variables a value, where there is one, and a property. -/
def declare (property : Variable → Variable) (words : List Octets) : Eff m Nat := do
  for word in words do
    let (name, value) := splitAssignment word
    match value with
    | some value => assign name value
    | none => pure ()
    mark name property
  return 0

/-- Declares variables, or tells of those that have been declared so. -/
def declareOrList (command : String) (holds : Variable → Bool) (property : Variable → Variable)
    (arguments : List Octets) : Eff m Nat := do
  let (options, words) ← takeOptions ['p'] arguments
  if options.isEmpty && !words.isEmpty then declare property words
  else listVariables (command.toList ++ [' ']) holds

def export' : List Octets → Eff m Nat :=
  declareOrList "export" (·.exported) ({ · with exported := true })

def readonly : List Octets → Eff m Nat :=
  declareOrList "readonly" (·.readOnly) ({ · with readOnly := true })

/-- Makes variables, or with a sign the settings, a function's own. -/
def local' (arguments : List Octets) : Eff m Nat := do
  if (← context).frames.isEmpty then fail .notInFunction
  for word in arguments do
    if word = ['-'] then makeSettingsLocal
    else
      let (name, value) := splitAssignment word
      if !isName name then fail (.badName name)
      makeLocal name
      match value with
      | some value => assign name value
      | none => pure ()
  return 0

def unset' (arguments : List Octets) : Eff m Nat := do
  let (options, words) ← takeOptions ['f', 'v'] arguments
  for word in words do
    if options.getLast? = some 'f' then
      change fun c => { c with functions := c.functions.filter (·.1 != word) }
    else if !isName word then fail (.badName word)
    else unset word
  return 0

/-! ### Options of a script -/

/-- What reading an option comes to. -/
inductive Scanned where
  /-- There are no more options. -/
  | none
  | unknown (letter : Char)
  | missing (letter : Char)
  | found (letter : Char) (argument : Octets)

/-- Whether a letter is an option, and whether it takes an argument. A colon makes it do so. -/
def taking? (letter : Char) : Octets → Option Bool
  | [] => none
  | c :: ':' :: cs => if c = letter then some true else taking? letter cs
  | c :: cs => if c = letter then some false else taking? letter cs

/-- Reads an option from words, and where the next one is. -/
def scan (letters : Octets) (words : List Octets) (s : Scanning) : Scanned × Scanning :=
  let before := (words[s.next - 2]?).getD []
  let here : Option (Octets × Nat) :=
    match s.offset with
    | some offset =>
      if 1 < s.next && offset < before.length then some (before.drop offset, s.next)
      else fresh
    | none => fresh
  match here with
  | none => (.none, ⟨s.next + (if isEnd then 1 else 0), none⟩)
  | some ([], next) => (.none, ⟨next, none⟩)
  | some (c :: rest, next) =>
    let word := (words[next - 2]?).getD []
    let onward : Scanning := ⟨next, some (word.length - rest.length)⟩
    match taking? c letters with
    | none => (.unknown c, onward)
    | some false => (.found c [], onward)
    | some true =>
      match rest, words[next - 1]? with
      | [], none => (.missing c, ⟨next, none⟩)
      | [], some argument => (.found c argument, ⟨next + 1, none⟩)
      | rest, _ => (.found c rest, ⟨next, none⟩)
where
  isEnd : Bool := words[s.next - 1]? = some ['-', '-']
  fresh : Option (Octets × Nat) :=
    match words[s.next - 1]? with
    | some ('-' :: c :: cs) => if isEnd then none else some (c :: cs, s.next + 1)
    | _ => none

/-- Reads the next option of a script's arguments, or of words that are given. -/
def getopts (arguments : List Octets) : Eff m Nat := do
  match arguments with
  | letters :: name :: given => do
    let c ← context
    let words := if given.isEmpty then c.arguments else given
    let from' := if words.length + 1 < c.scanning.next then Scanning.start else c.scanning
    change ({ · with scanning := .start })
    let (result, after) := scan letters words from'
    let quiet := letters.head? = some ':'
    let (letter, status) ← match result with
      | .none => pure ('?', 1)
      | .found letter argument => do
        assign "OPTARG".toList argument
        pure (letter, 0)
      | .unknown letter => do
        if quiet then assign "OPTARG".toList [letter]
        else
          report ("Illegal option -".toList ++ [letter])
          unset "OPTARG".toList
        pure ('?', 0)
      | .missing letter => do
        if quiet then assign "OPTARG".toList [letter]
        else
          report ("No arg for -".toList ++ [letter] ++ " option".toList)
          unset "OPTARG".toList
        pure (if quiet then ':' else '?', 0)
    assignQuietly "OPTIND".toList (natOctets after.next)
    assign name [letter]
    change ({ · with scanning := after })
    return status
  | _ => fail .noOptionsGiven

end ThreeAddress.Shell.Builtin
