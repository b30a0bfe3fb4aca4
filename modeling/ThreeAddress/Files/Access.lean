import ThreeAddress.Files.Error
import ThreeAddress.Files.FilePath

/-!
# Access to files

The operations that a job and its front end need, over any monad that offers them, and those that
are made of them, such as making a directory with all that is above it.
-/

namespace ThreeAddress.Files

inductive Kind where
  | file
  | directory
  /-- What takes or gives bytes without being a file. -/
  | device
  /-- What gives the bytes that are put into it. -/
  | pipe
  /-- What stands for the path that it points to. -/
  | link
  deriving DecidableEq, Repr

/-- What is known of something without reading it. -/
structure Status where
  kind : Kind
  /-- The path that all names of one thing have in common. -/
  identity : FilePath
  /-- How many names there are. -/
  names : Nat
  size : Nat
  /-- When it was last changed, later for greater numbers. -/
  changed : Nat
  /-- Whether it can be entered or run. -/
  executable : Bool
  deriving DecidableEq, Repr

class Access (m : Type → Type) where
  /-- What is at a path, or at the end of the links there if they are to be followed. -/
  status : (follow : Bool) → FilePath → m (Except Error Status)
  read : FilePath → m (Except Error ByteArray)
  /-- Replaces the whole content, or makes the file. -/
  write : FilePath → ByteArray → m (Except Error Unit)
  remove : FilePath → m (Except Error Unit)
  /-- Makes one directory, in a directory that is there. -/
  makeDirectory : FilePath → m (Except Error Unit)
  /-- The names in a directory, in any order. -/
  entries : FilePath → m (Except Error (List String))
  /-- The one absolute path without detours to what stands at a path. -/
  canonical : FilePath → m (Except Error FilePath)
  /-- The directory that relative paths start from. -/
  workingDirectory : m FilePath
  /-- What the link at a path points to. -/
  linkTarget : FilePath → m (Except Error FilePath)
  /-- Makes a link that points to the first path at the second. -/
  makeLink : FilePath → FilePath → m (Except Error Unit)
  /-- Gives what is at the first path, or at the end of the links there, the second as another
  name. -/
  share : (follow : Bool) → FilePath → FilePath → m (Except Error Unit)
  /-- Moves what is no directory to another name, in place of what has that name. -/
  rename : FilePath → FilePath → m (Except Error Unit)
  /-- Makes a device or a pipe at the second path like the one at the first. -/
  makeAlike : FilePath → FilePath → m (Except Error Unit)
  setChanged : FilePath → Nat → m (Except Error Unit)

variable {m : Type → Type} [Monad m] [Access m]

/-- What kind of thing a path leads to. -/
def kind? (p : FilePath) : m (Option Kind) := do
  return (← Access.status true p).toOption.map (·.kind)

def readText (p : FilePath) : m (Except Error String) := do
  match ← Access.read p with
  | .error e => return .error e
  | .ok bytes =>
    match String.fromUTF8? bytes with
    | some text => return .ok text
    | none => return .error .notText

def writeText (p : FilePath) (text : String) : m (Except Error Unit) :=
  Access.write p text.toUTF8

/-- Whether there is something at a path itself. -/
def isOccupied (p : FilePath) : m (Except Error Bool) := do
  match ← Access.status false p with
  | .ok _ => return .ok true
  | .error .notFound => return .ok false
  | .error e => return .error e

/-- Makes a file where there is nothing. -/
def createText (p : FilePath) (text : String) : m (Except Error Unit) := do
  match ← isOccupied p with
  | .ok true => return .error .alreadyExists
  | .ok false => writeText p text
  | .error e => return .error e

def isDirectory (p : FilePath) : m Bool := do
  return (← kind? p) == some .directory

/-- Makes a directory, if it is not one already. -/
def ensureDirectory (p : FilePath) : m (Except Error Unit) := do
  match ← Access.makeDirectory p with
  | .ok () => return .ok ()
  | .error e => if ← isDirectory p then return .ok () else return .error e

/-- Makes a directory after the ones above it, where it cannot be made at once. The empty path needs
no making. -/
def ensureDirectories (p : FilePath) : List FilePath → m (Except Error Unit)
  | [] =>
    if p.text.isEmpty then return .ok ()
    else do
      match ← ensureDirectory p with
      | .error .notFound => return .error (.other "failed to create whole tree")
      | result => return result
  | above :: rest => do
    match ← ensureDirectory p with
    | .error .notFound =>
      match ← ensureDirectories above rest with
      | .error e => return .error e
      | .ok () => ensureDirectory p
    | result => return result

def makeDirectories (p : FilePath) : m (Except Error Unit) :=
  ensureDirectories p p.above

end ThreeAddress.Files
