import ThreeAddress.Shell.Simple

/-!
# Running commands

A shell that is to end at failures ends when a simple command, a pipeline or a copy of the shell
fails whose status nothing tests. What leaves a loop or a function keeps all that follows in it from
running. How nested commands are run is a parameter of each rule; `evaluate` ties the knot.
-/

namespace ThreeAddress.Shell

open Files (Access)

variable {m : Type → Type} [Monad m] [Access m]

def isSkipping : Eff m Bool := do return (← context).skip.isSome

section

variable (run : Runner m)

/-! ### Statuses and signals -/

/-- Does what is to be done at the signals that have come, the lowest first. The status is what it
was, unless what is done returns. -/
def answerSignals : Nat → Eff m Unit
  | 0 => return ()
  | fuel + 1 => do
    let c ← context
    match c.pending.min?, c.skip with
    | some signal, none => do
      change fun c => { c with pending := c.pending.filter (· != signal) }
      match c.answer signal with
      | .action text => do
        change fun c => { c with statusBefore := some (c.statusBefore.getD c.status) }
        let _ ← runText run .argument text
        if !(← context).skip.any Skip.isReturning then setStatus c.status
        change ({ · with statusBefore := c.statusBefore })
      | _ => pure ()
      answerSignals fuel
    | _, _ => return ()

/-- How many signals are answered at most before a shell goes on. -/
def maxSignals : Nat := 1000

/-- Sets the status to that of an action, after which signals are answered. -/
def settle (action : Eff m Nat) : Eff m Nat := do
  let status ← action
  setStatus status
  if (← context).pending.isEmpty then return status
  else
    answerSignals run maxSignals
    return (← context).status

/-- The same, where a failure that nothing tests can end the shell. -/
def settleOrExit (tested : Bool) (action : Eff m Nat) : Eff m Nat := do
  let exits := !tested && (← context).has .errexit
  let status ← settle run action
  if exits && status ≠ 0 then throw .exit
  return status

/-! ### Loops -/

/-- How a loop goes on after a part of it. -/
inductive Turn where
  | further
  /-- With the next round at once. -/
  | next
  | leave
  deriving DecidableEq, Repr

/-- What a loop does about a skip, of which it takes its share. -/
def takeTurn : Eff m Turn := do
  match (← context).skip with
  | none => return .further
  | some (.returning _) => return .leave
  | some (.leaving n) => do
    change ({ · with skip := if n ≤ 1 then none else some (.leaving (n - 1)) })
    return .leave
  | some (.continuing n) => do
    change ({ · with skip := if n ≤ 1 then none else some (.continuing (n - 1)) })
    return if n ≤ 1 then .next else .leave

/-- Runs an action as a loop. -/
def inLoop (action : Eff m Nat) : Eff m Nat := do
  change fun c => { c with loops := c.loops + 1 }
  let status ← action
  change fun c => { c with loops := c.loops - 1 }
  return status

/-- How often a loop goes round at most. -/
def maxRounds : Nat := 1000000

def rounds (tested wanted : Bool) (test body : Option Command) : Nat → Nat → Eff m Nat
  | 0, status => return status
  | fuel + 1, status => do
    let found ← run true test
    let returns := (← context).skip = some (.returning true)
    match ← takeTurn with
    | .leave => return if returns then found else status
    | .next => rounds tested wanted test body fuel status
    | .further =>
      if (found == 0) != wanted then return status
      else
        let status ← run tested body
        if (← takeTurn) = .leave then return status
        else rounds tested wanted test body fuel status

def overFields (tested : Bool) (name : Octets) (body : Option Command) :
    List Octets → Nat → Eff m Nat
  | [], status => return status
  | field :: fields, _ => do
    assign name field
    let status ← run tested body
    if (← takeTurn) = .leave then return status else overFields tested name body fields status

def forEach (tested : Bool) (line : Nat) (name : Octets) (words : List Word)
    (body : Option Command) : Eff m Nat := do
  change ({ · with line })
  let fields ← expandFields (output run) words
  inLoop (overFields run tested name body fields 0)

/-! ### Choices -/

def fitsAny (subject : Octets) : List Word → Eff m Bool
  | [] => return false
  | w :: ws => do
    if (← expandPattern (output run) w).covers subject then return true else fitsAny subject ws

/-- Runs the first branch with a pattern that fits. -/
def choose (tested : Bool) (subject : Octets) : List Branch → Eff m Nat
  | [] => return 0
  | (patterns, body) :: branches => do
    if ← fitsAny run subject patterns then
      if body.isSome then run tested body else return 0
    else choose tested subject branches

def choice (tested : Bool) (line : Nat) (subject : Word) (branches : List Branch) : Eff m Nat := do
  change ({ · with line })
  let text ← expandText (output run) .single subject
  choose run tested text branches

/-! ### Copies of the shell -/

/-- Runs commands side by side, of which each reads what the one before it writes. -/
def pipeline (tested : Bool) : Option Nat → List Command → Eff m Nat
  | _, [] => return 0
  | source, [c] => runInCopy run tested (some c) (takeFrom source)
  | source, c :: cs => do
    let number ← addPipe
    let _ ← runInCopy run tested (some c) do
      takeFrom source
      setDescriptor 1 (some number)
    pipeline tested (some number) cs
where
  takeFrom (source : Option Nat) : Eff m Unit := do
    if source.isSome then setDescriptor 0 source

/-- Runs a command in the background, where it has no input. -/
def background (c : Command) : Eff m Nat := do
  let number ← addOpen ⟨.device ⟨"/dev/null"⟩, 0, false, true, false⟩
  let status ← runInCopy run false (some c) (setDescriptor 0 (some number))
  let process ← newProcess
  change fun c => { c with jobs := (process, status) :: c.jobs, lastJob := some process }
  return 0

def subshell (tested : Bool) (line : Nat) (c : Option Command)
    (redirections : List Redirection) : Eff m Nat := do
  change ({ · with line })
  let reroutings ← redirections.mapM (Rerouting.ofRedirection (output run))
  runInCopy run tested c (reroutings.forM (Rerouting.make (output run) false))

/-- Runs a command with redirections around it. It is these that fail if they cannot be made. -/
def redirected (tested : Bool) (line : Nat) (c : Option Command)
    (redirections : List Redirection) : Eff m Nat := do
  change ({ · with line })
  let reroutings ← redirections.mapM (Rerouting.ofRedirection (output run))
  Rerouting.around (output run) reroutings false fun made =>
    if made then run tested c else settleOrExit run tested (return 2)

/-! ### All commands -/

def runCommand (tested : Bool) : Command → Eff m Nat
  | .simple line assignments words redirections =>
    settleOrExit run tested (runSimple run tested line assignments words redirections)
  | .pipeline stages => settleOrExit run tested (pipeline run tested none stages)
  | .subshell line c redirections =>
    settleOrExit run tested (subshell run tested line c redirections)
  | .background c => settle run (background run c)
  | .negation c => settle run do
    let status ← run true (some c)
    return if ← isSkipping then status else if status = 0 then 1 else 0
  | .redirected line c redirections => settle run (redirected run tested line c redirections)
  | .both first second => do
    let status ← run true (some first)
    if status ≠ 0 || (← isSkipping) then return status else settle run (run tested (some second))
  | .either first second => do
    let status ← run true (some first)
    if status = 0 || (← isSkipping) then return status else settle run (run tested (some second))
  | .sequence first second => do
    let status ← run tested (some first)
    if ← isSkipping then return status else settle run (run tested (some second))
  | .conditional test yes no => do
    let status ← run true test
    if ← isSkipping then return status
    else if status = 0 then settle run (run tested yes)
    else if no.isSome then settle run (run tested no)
    else settle run (return 0)
  | .loop wanted test body => settle run (inLoop (rounds run tested wanted test body maxRounds 0))
  | .forEach line name words body => settle run (forEach run tested line name words body)
  | .choice line subject branches => settle run (choice run tested line subject branches)
  | .function name body => settle run do
    change fun c =>
      { c with functions := (name, body) :: c.functions.filter (·.1 != name) }
    return 0

end

/-- Runs commands that are nested no deeper than the number. Without a command, or where commands
are only to be read, the status stays. -/
def evaluate : Nat → Runner m
  | 0, _, _ => throw .exit
  | depth + 1, tested, c => do
    let s ← context
    match c with
    | none => return s.status
    | some c => if s.has .noexec then return s.status else runCommand (evaluate depth) tested c

/-- How deep commands are nested at most, calls of functions included. -/
def maxNesting : Nat := 100000

end ThreeAddress.Shell
