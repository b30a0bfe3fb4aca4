import ThreeAddress.Job.Compile
import ThreeAddress.Text.Utf8

/-!
# Front ends as commands

A command line with the staged source after it. What it writes to standard error is its account of
why it failed. Which programs can be started, and what they do, is left to the system (`Programs`).
-/

namespace ThreeAddress.Job

/-- How a program has ended. -/
structure Exit where
  status : Nat
  /-- What it has written to standard error. -/
  errors : List UInt8
  deriving DecidableEq, Repr

class Programs (m : Type → Type) where
  /-- Starts a program with arguments and waits for its end. -/
  start : String → List String → m (Except Files.Error Exit)

variable {m : Type → Type} [Monad m] [Files.Access m] [Programs m]

def noFrontEnd : String := "No front end command configured"

/-- There is none without a program to start. -/
def FrontEnd.ofCommand? : List String → Option (FrontEnd m)
  | [] => none
  | program :: arguments => some fun staged _ => do
    let source := staged.within (← Files.Access.workingDirectory)
    match ← Programs.start program (arguments ++ [source.text]) with
    | .error e =>
      return .error ("Failed to start front end '" ++ program ++ "': " ++ e.text)
    | .ok exit =>
      if exit.status = 0 then return .ok ()
      else return .error ("Compilation failed:\n" ++ Text.lossy exit.errors)

end ThreeAddress.Job
