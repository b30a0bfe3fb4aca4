import ThreeAddress.Shell.Copy.Name
import ThreeAddress.Shell.Copy.Options
import ThreeAddress.Shell.Streams

/-!
# Copying as it goes on

What has been copied so far for one command line, the messages about it, and the files that are
copied. What is told on standard output comes there at the end, or before a message that something
is wrong.
-/

namespace ThreeAddress.Shell.Copy

open Files (Access FilePath Status)
open Quoted (quote)

/-- A plan with what the environment has settled. -/
structure Settings where
  plan : Plan
  backup : Backup
  suffix : Octets

/-- What is known of a target beforehand. -/
inductive Presence where
  | unknown
  /-- Nothing is found if links are followed. -/
  | notFound
  | absent
  deriving DecidableEq, Repr

/-- One copy to make. -/
structure Item where
  source : Octets
  target : Octets
  /-- The directory that the target is in, and how much of the target's name is its name. -/
  directory : Option (Octets × Nat)
  /-- Whether the source is an operand. -/
  isOperand : Bool
  following : Following
  presence : Presence
  /-- The directories that it is copied with, and is in. -/
  ancestors : List FilePath

namespace Item

/-- The target's name within its directory. -/
def relative (i : Item) : Octets :=
  match i.directory with
  | none => i.target
  | some (_, length) => i.target.drop length

/-- Where something of a name in the target's directory is found. -/
def beside (i : Item) (name : Octets) : Octets :=
  match i.directory with
  | none => name
  | some (directory, _) => if name.isEmpty then [] else Name.join directory name

/-- Where the target is found. One without a name is the directory itself. -/
def place (i : Item) : Octets :=
  match i.relative with
  | [] => i.beside ['.']
  | name => i.beside name

/-- How a name in the target's directory is told. -/
def shown (i : Item) (name : Octets) : Octets :=
  match i.directory with
  | none => name
  | some (_, length) => i.target.take length ++ name

/-- Whether links are followed to the source. -/
def followsSource (i : Item) : Bool :=
  i.following = .always || (i.following = .operands && i.isOperand)

end Item

/-- What has been copied so far. -/
structure Progress where
  /-- The operands that came first, of which others may be repetitions. -/
  sources : List (Octets × FilePath)
  /-- The copies of operands. -/
  copies : List (Octets × FilePath)
  /-- Whether operands are compared. -/
  compares : Bool
  /-- The names in the target directory of what has been copied or made. -/
  made : List (FilePath × Octets)
  /-- The operand at hand and its target. -/
  top : Octets × Octets
  /-- What is to be told on standard output. -/
  told : Octets
  /-- Whether a question has been asked. -/
  hasAsked : Bool

abbrev Work (m : Type → Type) := StateT Progress (Eff m)

variable {m : Type → Type} [Monad m] [Access m]

/-- Does what a shell can do. -/
def inShell {α : Type} (action : Eff m α) : Work m α := StateT.lift action

/-! ### Messages -/

/-- The name that the program was started by. -/
def programName : Eff m Octets := do return (← context).command.getD []

def complain (text : Octets) : Eff m Unit := do report ((← programName) ++ ": ".toList ++ text)

def pointToHelp : Eff m Unit := do
  report ("Try '".toList ++ (← programName) ++ " --help' for more information.".toList)

/-- Brings what is told to standard output. -/
def flush : Work m (Except Files.Error Unit) := do
  let told := (← get).told
  modify ({ · with told := [] })
  inShell (write 1 told)

def tellLine (line : Octets) : Work m Unit :=
  modify fun s => { s with told := s.told ++ line ++ ['\n'] }

/-- Says what is wrong. -/
def deplore (text : Octets) : Work m Unit := do
  let _ ← flush
  inShell (complain text)

/-- Says what is wrong, and that a copy has failed. -/
def failed (text : Octets) : Work m Bool := do
  deplore text
  return false

def reason (e : Files.Error) : Octets := ": ".toList ++ Shell.octets e.reason

/-- Says what could not be done to something of a name, and why. -/
def failedAt (doing : String) (name : Octets) (e : Files.Error) : Work m Bool :=
  failed (doing.toList ++ [' '] ++ quote name ++ reason e)

def tellRemoved (name : Octets) : Work m Unit := tellLine ("removed ".toList ++ quote name)

/-- Asks whether a target is to be overwritten. -/
def mayOverwrite (target : Octets) : Work m Bool := do
  let question := (← inShell programName) ++ ": overwrite ".toList ++ quote target ++ "? ".toList
  let _ ← inShell (emit 2 question)
  modify ({ · with hasAsked := true })
  let answer ← inShell (readLine 0)
  return answer.head? = some 'y' || answer.head? = some 'Y'

/-! ### Files -/

def statusOf (follow : Bool) (name : Octets) : Work m (Except Files.Error Status) :=
  inShell (inspect follow name)

/-- Does something to the file of a name. -/
def withFile {α : Type} (name : Octets) (action : FilePath → m α) : Work m α := do
  let p ← inShell (locate name)
  return (← (action p : m _))

/-- The file that a name stands for, or the descriptor of an open one that has no name. -/
def reopened (name : Octets) : Eff m (FilePath ⊕ Nat) := do
  match pathDescriptor? name with
  | none => return .inl (← locate name)
  | some fd => do
    match (← opened? fd).map Open.store with
    | some (.file p) => return .inl p
    | some (.device p) => return .inl p
    | _ => return .inr fd

def contentOf (name : Octets) : Work m (Except Files.Error ByteArray) := do
  match ← inShell (reopened name) with
  | .inl p => return (← (Access.read p : m _))
  | .inr fd => return .ok ⟨(Shell.bytesOf (← inShell (readAll fd))).toArray⟩

def writeTo (name : Octets) (content : ByteArray) : Work m (Except Files.Error Unit) := do
  match ← inShell (reopened name) with
  | .inl p => return (← (Access.write p content : m _))
  | .inr fd => do
    let _ ← inShell (emit fd (Shell.octetsOfBytes content))
    return .ok ()

def removeFile (name : Octets) : Work m (Except Files.Error Unit) := withFile name Access.remove

def renameFile (name other : Octets) : Work m (Except Files.Error Unit) := do
  let p ← inShell (locate name)
  withFile other (Access.rename p)

/-- The directory that a name is in. -/
def directoryOf (name : Octets) : Work m (Option FilePath) := do
  return (← statusOf true (Name.directory name)).toOption.map (·.identity)

/-- Whether two names are of the same entry of a directory. -/
def isSameEntry (name other : Octets) : Work m Bool := do
  if Name.lastStep name = Name.lastStep other then
    return (← directoryOf name) = (← directoryOf other)
  else return false

/-! ### Operands and copies -/

/-- Whether one of some operands is the same entry of a directory as a name. -/
def isAmong (name : Octets) (identity : FilePath) : List (Octets × FilePath) → Work m Bool
  | [] => return false
  | (other, identity') :: rest => do
    if identity = identity' && (← isSameEntry name other) then return true
    else isAmong name identity rest

/-- Remembers under which name something was copied or made, and gives the name that it was copied
or made under before. -/
def remember (identity : FilePath) (name : Octets) : Work m (Option Octets) := do
  match (← get).made.lookup identity with
  | some earlier => return some earlier
  | none => do
    modify fun s => { s with made := (identity, name) :: s.made }
    return none

def forget (identity : FilePath) : Work m Unit :=
  modify fun s => { s with made := s.made.filter (·.1 != identity) }

end ThreeAddress.Shell.Copy
