import ThreeAddress.Shell.Invocation
import ThreeAddress.Shell.Lookup
import ThreeAddress.Shell.Redirected

/-!
# Simple commands

The words are expanded first, as the name among them decides how: what a declaring command is given
is expanded like an assignment. Then come redirections, then assignments, then what is run.
Assignments stay if nothing is run or a special built-in command is.
-/

namespace ThreeAddress.Shell

open Files (Access)

variable {m : Type → Type} [Monad m] [Access m] (run : Runner m)

/-! ### Words -/

/-- Words in part expanded. -/
structure Expanding where
  fields : List Octets
  rest : List Word

/-- The fields of words up to the first that makes any. -/
def firstFields : List Word → Eff m Expanding
  | [] => return ⟨[], []⟩
  | w :: ws => do
    match ← expandFields (output run) [w] with
    | [] => firstFields ws
    | fields => return ⟨fields, ws⟩

/-- The field at a place, for which as many words are expanded as it takes. -/
def Expanding.field (e : Expanding) (i : Nat) : Eff m (Option Octets × Expanding) := do
  match e.fields[i]? with
  | some f => return (some f, e)
  | none => do
    let next ← firstFields run e.rest
    let e := ⟨e.fields ++ next.fields, next.rest⟩
    return (e.fields[i]?, e)

/-- Where the name stands that `command` is to run, after its options, and whether these ask for the
default path. -/
def Expanding.operand : Nat → Nat → Bool → Expanding → Eff m (Option (Nat × Bool) × Expanding)
  | 0, _, _, e => return (none, e)
  | fuel + 1, i, usesDefault, e => do
    match ← e.field run i with
    | (none, e) => return (none, e)
    | (some ['-', '-'], e) => do
      let (name, e) ← e.field run (i + 1)
      return (name.map fun _ => (i + 1, usesDefault), e)
    | (some ('-' :: c :: cs), e) =>
      if (c :: cs).all (· == 'p') then operand fuel (i + 1) true e else return (none, e)
    | (some _, e) => return (some (i, usesDefault), e)

/-- What is to be run. -/
structure Call where
  expanding : Expanding
  /-- Where the name of what is run stands among the fields. -/
  start : Nat
  callee : Callee
  /-- Whether the first name is that of a special built-in command. -/
  isSpecial : Bool
  usesDefault : Bool

namespace Call

/-- Finds what is to be run from the name at a place on. -/
def find : Nat → Call → Eff m Call
  | 0, call => return call
  | fuel + 1, call => do
    let (name, e) ← call.expanding.field run call.start
    let call := { call with expanding := e }
    match name with
    | none => return call
    | some name =>
      let isFirst := call.start == 0
      let callee ← Shell.callee isFirst name
      let call := { call with callee }
      match callee with
      | .builtin text =>
        let call := if isFirst then { call with isSpecial := specialNames.contains text } else call
        if text ≠ "command" then return call
        else
          match ← e.operand run 100 (call.start + 1) call.usesDefault with
          | (none, e) => return { call with expanding := e }
          | (some (start, usesDefault), e) =>
            find fuel { call with expanding := e, start, usesDefault }
      | _ => return call

/-- Whether the words that look like assignments are expanded as such. -/
def declares (call : Call) : Bool :=
  match call.callee with
  | .builtin name => declaringNames.contains name
  | _ => false

/-- Finds what words call, and expands all of them. -/
def ofWords (words : List Word) : Eff m Call := do
  let call ← find run 100 ⟨⟨[], words⟩, 0, .nothing, false, false⟩
  let rest ← call.expanding.rest.mapM fun w => do
    if call.declares && w.assignment?.isSome then
      return [← expandText (output run) .forAssignment w]
    else expandFields (output run) [w]
  return { call with expanding := ⟨call.expanding.fields ++ rest.flatten, []⟩ }

def fields (call : Call) : List Octets := call.expanding.fields

def name (call : Call) : Octets := (call.fields[call.start]?).getD []

def arguments (call : Call) : List Octets := call.fields.drop (call.start + 1)

def replacesShell (call : Call) : Bool :=
  match call.callee with
  | .builtin name => name = "exec"
  | _ => false

/-- Whether assignments are for what is run alone. -/
def isScope (call : Call) : Bool :=
  match call.callee with
  | .nothing => false
  | _ => !call.isSpecial

end Call

/-! ### Assignments -/

/-- Makes an assignment, and gives it as text. -/
def assignWord (isLocal isExported : Bool) (w : Word) : Eff m Octets := do
  let text ← expandText (output run) .forAssignment w
  let (name, value) := Builtin.splitAssignment text
  if isLocal then makeLocal name
  assign name (value.getD [])
  if isLocal || isExported then mark name ({ · with exported := true })
  return text

/-- Shows a command before it is run, if that is asked for. -/
def trace (standardError : Option Nat) (words : List Octets) : Eff m Unit := do
  let c ← context
  match standardError with
  | some number =>
    if c.has .xtrace then
      let before := (c.value? "PS4".toList).getD []
      let _ ← writeOpen number (before ++ List.intercalate [' '] words ++ ['\n'])
  | none => return ()

/-! ### Running what was found -/

/-- Ends a return where it was to lead. -/
def stopReturning : Eff m Unit :=
  change fun c => { c with skip := c.skip.filter (!·.isReturning) }

def maxCalls : Nat := 1000

/-- Calls a function with arguments of its own, until it returns. -/
def callFunction (tested : Bool) (body : Command) (arguments : List Octets) : Eff m Nat := do
  let before ← context
  if maxCalls ≤ before.calls then fail (.tooManyCalls maxCalls)
  change ({ · with arguments, scanning := .start, loops := 0, calls := before.calls + 1 })
  let status ← ensuring (run tested (some body)) <| change fun c =>
    { c with
      arguments := before.arguments
      scanning := before.scanning
      calls := before.calls
      loops := before.loops }
  stopReturning
  return status

/-- Runs the program at a path. -/
def runProgram (path name : Octets) (arguments : List Octets) : Eff m (Except Files.Error Nat) := do
  match ← Program.examineAt path with
  | .error e => return .error e
  | .ok p => return .ok (← p.run (runShell run) name arguments)

/-- Finds a program and runs it. -/
def callProgram (usesDefault : Bool) (name : Octets) (arguments : List Octets) : Eff m Nat := do
  let path ← if usesDefault then programPath Program.defaultPath name else seekProgram name
  match path with
  | .error e => do
    warn (.cannotRun name e)
    return 127
  | .ok found => awaiting do
    match ← runProgram run found name arguments with
    | .ok status => return status
    | .error e => do
      warn (.cannotRun name e)
      return Program.statusOf e

/-- Runs a program in place of the shell, if there is one to run. -/
def replaceShell (arguments : List Octets) : Eff m Nat := do
  match arguments with
  | [] => return 0
  | name :: arguments => replace name arguments
where
  replace (name : Octets) (arguments : List Octets) : Eff m Nat := do
    let result ← do
      match ← programPath (← searchPath) name with
      | .error e => pure (.error e)
      | .ok path => runProgram run path name arguments
    match result with
    | .ok status => do
      change ({ · with traps := [] })
      setStatus status
    | .error e => do
      warn (.cannotRun name e)
      setStatus (Program.statusOf e)
    throw .exit

def examineScript (path : Octets) : Eff m (Except Files.Error Unit) := do
  match ← (examine (← locate path) : m _) with
  | .ok .file => return .ok ()
  | .ok _ => return .error .notFound
  | .error e => return .error e

/-- The path of a file of commands, which is looked for as a program is unless it has a slash. -/
def scriptPath (name : Octets) : Eff m Octets := do
  if name.contains '/' then return name
  else
    match ← Program.search examineScript name .notFound ((← searchPath).splitOn ':') with
    | .ok path => return path
    | .error _ => fail (.notFound name)

/-- Runs the commands in a file as if they stood here. -/
def runFile (arguments : List Octets) : Eff m Nat := do
  let (_, operands) ← Builtin.takeOptions [] arguments
  match operands with
  | [] => return 0
  | name :: _ => do
    let path ← scriptPath name
    let text ← Invocation.fileText path
    change ({ · with command := some path })
    let status ← runText run .file text
    stopReturning
    return status

def callBuiltin (tested : Bool) (name : String) (arguments : List Octets) : Eff m Nat := do
  match name with
  | "." => runFile run arguments
  | "command" => tell arguments
  | "eval" => runText run { Manner.argument with tested } (List.intercalate [' '] arguments)
  | "exec" => replaceShell run arguments
  | "hash" => hash arguments
  | "type" => describeAll false arguments
  | name =>
    match builtin? name with
    | some f => f arguments
    | none => return 0

/-- Runs a built-in command, which the shell survives unless it is a special one. -/
def withstand (call : Call) (action : Eff m Nat) : Eff m Nat := do
  let before ← context
  change ({ · with command := some call.name })
  let result ← attempt action
  change ({ · with command := before.command })
  match result with
  | .ok status => return status
  | .error .fault => if call.isSpecial then throw .fault else return (← context).status
  | .error e => throw e

def Call.perform (call : Call) (tested : Bool) : Eff m Nat := do
  match call.callee with
  | .nothing => return (← context).substitutionStatus
  | .function body => callFunction run tested body call.arguments
  | .builtin name => withstand call (callBuiltin run tested name call.arguments)
  | .program => callProgram run call.usesDefault call.name call.arguments

/-- Runs a simple command. -/
def runSimple (tested : Bool) (line : Nat) (assignments words : List Word)
    (redirections : List Redirection) : Eff m Nat := do
  change ({ · with line, substitutionStatus := 0 })
  let call ← Call.ofWords run words
  let before ← context
  if call.isScope then enterFrame
  let reroutings ← redirections.mapM (Rerouting.ofRedirection (output run))
  let status ← Rerouting.around (output run) reroutings call.replacesShell fun made => do
    if made then
      let isExported := call.replacesShell && !call.arguments.isEmpty
      let assigned ← assignments.mapM (assignWord run call.isScope isExported)
      trace (before.descriptors.lookup 2) (assigned ++ call.fields)
      call.perform run tested
    else
      if call.isSpecial then throw .fault
      return 2
  leaveFrames before.frames.length
  return status

end ThreeAddress.Shell
