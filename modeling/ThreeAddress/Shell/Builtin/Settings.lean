import ThreeAddress.Shell.Builtin.Variables

/-!
# Settings of the shell
-/

namespace ThreeAddress.Shell.Builtin

open Files (Access)

variable {m : Type → Type} [Monad m] [Access m]

/-- Changes a setting by its letter. -/
def setLetter (on : Bool) (letter : Char) : Eff m Unit := do
  match Setting.ofLetter? letter with
  | some s => change fun c =>
    (if on then s.excludes else []).foldl (fun c other => c.set other false) (c.set s on)
  | none => fail (.badOption letter)

def setNamed (on : Bool) (name : Octets) : Eff m Unit := do
  match Setting.ofName? (String.ofList name) with
  | some s => change (·.set s on)
  | none => fail (.badLongOption name)

/-- Tells of all settings, in words or as commands. -/
def tellSettings (inWords : Bool) (on : List Setting) : Eff m Unit := do
  let text := if inWords then Setting.table on else Setting.commands on
  let _ ← print text.toList

/-- The letters of a group, in which `o` takes a name from the words that follow. If there is none,
the settings are told; those that are on are given. -/
def setLetters (told : Eff m (List Setting)) (on : Bool) :
    Octets → List Octets → Eff m (List Octets)
  | [], words => return words
  | c :: cs, words => do
    if c = 'o' then
      match words with
      | [] => do
        tellSettings on (← told)
        setLetters told on cs []
      | name :: words => do
        setNamed on name
        setLetters told on cs words
    else do
      setLetter on c
      setLetters told on cs words

/-- Gives up control of jobs, for which a terminal would be needed. -/
def renounceMonitor : Eff m Unit := do
  let c ← context
  if c.has .monitor && !c.isCopy then
    warn .noTerminal
    change (·.set .monitor false)

/-- Reads option groups, and gives the operands if there was an end of options or an operand. -/
def setOptions : Nat → List Octets → Eff m (Option (List Octets))
  | 0, _ => return none
  | _ + 1, [] => return none
  | fuel + 1, word :: words => do
    let told : Eff m (List Setting) := do return (← context).settings
    match word with
    | ['-'] => do
      change fun c => (c.set .xtrace false).set .verbose false
      return if words.isEmpty then none else some words
    | ['-', '-'] => return some words
    | '-' :: letters => do setOptions fuel (← setLetters told true letters words)
    | '+' :: letters => do setOptions fuel (← setLetters told false letters words)
    | _ => return some (word :: words)

def set' (arguments : List Octets) : Eff m Nat := do
  if arguments.isEmpty then listVariables [] (·.value.isSome)
  else
    let operands ← setOptions (arguments.length + 1) arguments
    renounceMonitor
    match operands with
    | some operands => setArguments operands
    | none => pure ()
    return 0

end ThreeAddress.Shell.Builtin
