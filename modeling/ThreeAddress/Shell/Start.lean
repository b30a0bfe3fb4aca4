import ThreeAddress.Job.FrontEnd
import ThreeAddress.Shell.Run

/-!
# Starting programs

A program is started with no input. What it writes to standard output is dropped, and what it writes
to standard error is kept.
-/

namespace ThreeAddress.Shell

open Files (Access FilePath)
open Job (Exit)

/-- How many bytes a single argument has at most. -/
def maxArgument : Nat := 131071

variable {m : Type → Type} [Monad m] [Access m]

/-- The program that a name stands for, looked for in the directories of every system if it has no
slash. -/
def findProgram (name : String) : m (Except Files.Error Program) := do
  if name.isEmpty then return .error .notFound
  else if FilePath.isStepTooLong name && !name.contains '/' then return .error .nameTooLong
  else
    let octets := Shell.octets name
    let programAt (path : Octets) : m (Except Files.Error Program) :=
      Program.examine ⟨Shell.ofOctets path⟩
    let path ← if octets.contains '/' then pure (.ok octets)
      else Program.search programAt octets .notFound (Program.defaultPath.splitOn ':')
    match path with
    | .error e => return .error e
    | .ok path => programAt path

/-- What a program is told of the system. -/
def systemVariables (directory : FilePath) : List (Octets × Octets) :=
  [("HOME".toList, "/root".toList), ("PATH".toList, Program.defaultPath),
    ("PWD".toList, Shell.octets directory.text)]

/-- The number of the first process that is started. Those before it are the system's. -/
def firstProcess : Nat := 1000

/-- A session in which nothing has been run, with standard output and standard error kept. -/
def Session.start (name : Octets) (directory : FilePath) : Session :=
  { context := .start name firstProcess
      { vars := systemVariables directory, descriptors := [(0, 0), (1, 1), (2, 2)]
        directory := none, mask := 0o022, limits := [], deafTo := [], callers := [] }
    opened :=
      [⟨.device ⟨"/dev/null"⟩, 0, false, true, false⟩, ⟨.kept [], 0, false, false, true⟩,
        ⟨.kept [], 0, false, false, true⟩]
    lastProcess := firstProcess
    signals := [] }

/-- Starts a program with arguments, if it can be started. -/
def start (name : String) (arguments : List String) : m (Except Files.Error Exit) := do
  if (name :: arguments).any (·.contains '\x00') then
    return .error (.other "nul byte found in provided data")
  else
    match ← findProgram name with
    | .error e => return .error e
    | .ok p =>
      if (name :: arguments).any (maxArgument < ·.utf8ByteSize) then return .error .argumentsTooLong
      else
        let octets := Shell.octets name
        let action : Eff m Nat :=
          p.run (runShell (evaluate maxNesting)) octets (arguments.map Shell.octets)
        let (result, after) ← action.run.run (.start octets (← Access.workingDirectory))
        return .ok ⟨result.toOption.getD 2, Shell.bytesOf (after.keptIn 2)⟩

end ThreeAddress.Shell
