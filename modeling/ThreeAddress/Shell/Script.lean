import ThreeAddress.Shell.CommandReader
import ThreeAddress.Shell.Signals

/-!
# Running texts

A text is read and run line by line, so that what stands before an error has been run. How a command
is run is a parameter. A copy of the shell has a context of its own and shares open files; what a
shell is to do at its end is done whatever ended it.
-/

namespace ThreeAddress.Shell

open Files (Access)

/-- How a command is run, and whether its status is tested. A failure that is not can end the
shell. -/
abbrev Runner (m : Type → Type) := Bool → Option Command → Eff m Nat

/-- How a text is run. -/
structure Manner where
  tested : Bool
  /-- Whether its lines are shown as they are read, if the shell is to show such lines. -/
  shown : Bool

namespace Manner

/-- Of commands given as an argument. -/
def argument : Manner := ⟨false, false⟩

/-- Of commands in a file. -/
def file : Manner := ⟨false, true⟩

end Manner

variable {m : Type → Type} [Monad m] [Access m] (run : Runner m)

/-- Shows the part of a source that has been read, to the end of its last line. -/
def showRead (before after : Source) : Eff m Unit := do
  if (← context).has .verbose then
    let read := before.rest.take (before.rest.length - after.rest.length)
    let left := if read.getLast? = some '\n' then [] else firstLine after.rest
    let _ ← emit 2 (read ++ left)

/-- How many lines the values of aliases make at most. -/
def maxLines : Nat := 100000

/-- Runs the lines of a source, and gives the status of the last command. -/
def runLines (manner : Manner) : Nat → Source → Nat → Eff m Nat
  | 0, _, status => return status
  | fuel + 1, source, status => do
    let c ← context
    let source :=
      { source with documents := [], nextDocument := c.nextDocument, aliases := c.aliases }
    match Reader.line.run source with
    | .error e after => do
      if manner.shown then showRead source after
      change ({ · with line := after.line })
      fail (.misread e)
    | .ok c after => do
      if manner.shown then showRead source after
      change fun s =>
        { s with
          sourceLine := after.line
          documents := after.documents ++ s.documents
          nextDocument := after.nextDocument }
      match c with
      | none => if after.last = .endOfFile then return status else runLines manner fuel after status
      | some c => do
        let status ← run manner.tested (some c)
        if (← context).skip.isSome then return status else runLines manner fuel after status

def runText (manner : Manner) (text : Octets) : Eff m Nat := do
  let before ← context
  let source := Source.ofText text before.nextDocument
  let status ← runLines run manner (text.length + maxLines) source 0
  change ({ · with sourceLine := before.sourceLine })
  return status

/-- The commands of a file, in which the character zero is no character. -/
def scriptText (content : Octets) : Octets := content.filter (· != '\x00')

/-! ### Ends and copies -/

/-- Runs an action, and goes on unless a signal has ended the shell. -/
def untilEnd {α : Type} (action : Eff m α) : Eff m (Option α) := do
  match ← attempt action with
  | .ok a => return some a
  | .error (.killed signal) => throw (.killed signal)
  | .error _ => return none

/-- Runs a shell to its end, and gives the status that it ends with. -/
def toEnd (action : Eff m Unit) : Eff m Nat := do
  let _ ← untilEnd action
  let c ← context
  let status := c.status
  match c.traps.lookup 0 with
  | none => return status % 256
  | some text => do
    change fun c =>
      { c with
        traps := c.traps.filter (·.1 != 0)
        skip := none
        statusBefore := some status }
    match ← untilEnd (runText run .argument text) with
    | some _ => return status % 256
    | none => return (← context).status % 256

/-- Runs an action in a copy of the shell, of which only what it did to files remains. -/
def inCopy (action : Eff m Unit) : Eff m Nat := do
  let before ← context
  change fun c => { c with isCopy := true, traps := c.ignored, pending := [], jobs := [] }
  awaiting (ensuring (toEnd run action) (change fun _ => before))

/-- Runs a command in a copy of the shell. -/
def runInCopy (tested : Bool) (c : Option Command) (prepare : Eff m Unit) : Eff m Nat :=
  inCopy run do
    prepare
    let _ ← run tested c

/-- An open file for what one command writes and another reads. -/
def addPipe : Eff m Nat := addOpen ⟨.kept [], 0, false, true, true⟩

/-- The output of a command. -/
def output (c : Option Command) : Eff m Octets := do
  if c.isNone then return []
  else
    let number ← addPipe
    let status ← runInCopy run false c (setDescriptor 1 (some number))
    change ({ · with substitutionStatus := status })
    return (← get).keptIn number

end ThreeAddress.Shell
