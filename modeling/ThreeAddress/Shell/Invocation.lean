import ThreeAddress.Shell.Builtin
import ThreeAddress.Shell.Script

/-!
# The command line of a shell

Options come first. Then come the commands themselves, the name of a file with them, or nothing, if
they are read from standard input; the rest are arguments.
-/

namespace ThreeAddress.Shell

open Files (Access)

/-- The variables that a shell sets for itself unless it is given them. -/
def ownVariables : List (Octets × Octets) :=
  [("PS1".toList, "# ".toList), ("PS2".toList, "> ".toList), ("PS4".toList, "+ ".toList)]

/-- The variables that a shell sets for itself in any case. -/
def fixedVariables (caller : Nat) : List (Octets × Octets) :=
  [("IFS".toList, " \t\n".toList), ("OPTIND".toList, ['1']), ("PPID".toList, natOctets caller)]

/-- What a new shell is given by the one that starts it. -/
structure Inheritance where
  vars : List (Octets × Octets)
  descriptors : List (Nat × Nat)
  directory : Option Octets
  mask : Nat
  limits : List (Char × Octets)
  deafTo : List Nat
  /-- The numbers of the shells that wait for it. -/
  callers : List Nat

namespace Context

/-- The context of a new shell. -/
def start (name : Octets) (process : Nat) (given : Inheritance) : Context :=
  let fixed := fixedVariables (given.callers.head?.getD 0)
  let inherited := given.vars.filter (isName ·.1)
  let own := ownVariables.filter fun (name, _) => (inherited.lookup name).isNone
  { name, arguments := [], settings := []
    vars :=
      fixed.map (fun (name, value) => (name, ⟨some value, (inherited.lookup name).isSome, false⟩)) ++
        own.map (fun (name, value) => (name, ⟨some value, false, false⟩)) ++
        (inherited.filter fun (name, _) => (fixed.lookup name).isNone).map
          fun (name, value) => (name, ⟨some value, true, false⟩)
    functions := [], aliases := [], calls := 0, frames := [], scanning := .start, findings := []
    status := 0, substitutionStatus := 0, process, callers := given.callers, isCopy := false
    jobs := [], lastJob := none, line := 0, sourceLine := 0, command := none
    directory := given.directory, mask := given.mask, limits := given.limits
    descriptors := given.descriptors, traps := [], deafTo := given.deafTo, pending := []
    statusBefore := none, loops := 0, skip := none, documents := [], nextDocument := 0 }

/-- The variables that programs are given. -/
def exported (c : Context) : List (Octets × Octets) :=
  c.vars.filterMap fun (name, v) => if v.exported then v.value.map (name, ·) else none

/-- What a shell gives to one that it starts. -/
def inheritance (c : Context) : Inheritance where
  vars := c.exported
  descriptors := c.descriptors
  directory := c.directory
  mask := c.mask
  limits := c.limits
  deafTo := c.deafTo ++ c.ignored.map (·.1)
  callers := c.process :: c.callers

end Context

namespace Invocation

variable {m : Type → Type} [Monad m] [Access m]

/-- Takes options, and gives whether commands come as an argument, and the operands. -/
def takeOptions : Nat → Bool → List Octets → Eff m (Bool × List Octets)
  | 0, isArgument, words => return (isArgument, words)
  | _ + 1, isArgument, [] => return (isArgument, [])
  | fuel + 1, isArgument, word :: words => do
    match word with
    | ['-'] => return (isArgument, words)
    | ['-', '-'] => return (isArgument, words)
    | sign :: letters =>
      if sign = '-' || sign = '+' then
        let others := letters.filter fun c => c != 'c' && c != 'l'
        let words ← Builtin.setLetters (return Setting.all) (sign = '-') others words
        takeOptions fuel (isArgument || letters.contains 'c') words
      else return (isArgument, word :: words)
    | [] => return (isArgument, word :: words)

def setCall (name : Octets) (arguments : List Octets) : Eff m Unit :=
  change ({ · with name, arguments })

/-- The commands in a file. -/
def fileText (name : Octets) : Eff m Octets := do
  match ← openNamed .input name with
  | .error e => fail (.cannotOpen name e)
  | .ok number =>
    match (← get).opened[number]? with
    | some o => return scriptText (← o.store.content)
    | none => return []

variable (run : Runner m)

def runInput : Eff m Unit := do
  let _ ← runText run .file (scriptText (← readAll 0))

/-- Reads the command line and runs the commands that it leads to. -/
def carryOut (words : List Octets) : Eff m Unit := do
  let (isArgument, operands) ← takeOptions (words.length + 1) false words
  Builtin.renounceMonitor
  let fromInput := (← context).has .stdin
  match isArgument, operands with
  | true, [] => fail .missingCommand
  | true, text :: rest => do
    match rest with
    | [] => pure ()
    | name :: arguments => setCall name arguments
    let _ ← runText run .argument text
    if fromInput then runInput run
  | false, [] => runInput run
  | false, first :: rest => do
    if fromInput then
      change ({ · with arguments := first :: rest })
      runInput run
    else
      let text ← fileText first
      setCall first rest
      let _ ← runText run .file text

end Invocation

variable {m : Type → Type} [Monad m] [Access m]

/-- Runs a shell that was started by a name. -/
def runShell (run : Runner m) (name : Octets) (arguments : List Octets) : Eff m Nat := do
  let before ← context
  let process ← newProcess
  change fun c => .start name process c.inheritance
  ensuring (toEnd run (Invocation.carryOut run arguments)) (change fun _ => before)

end ThreeAddress.Shell
