import ThreeAddress.Shell.Copy.Work

/-!
# Making copies of single things

Each way says what went wrong and gives whether nothing did.
-/

namespace ThreeAddress.Shell.Copy

open Files (Access Status)
open Quoted (quote)

variable {m : Type → Type} [Monad m] [Access m]

namespace Item

/-! ### Links -/

/-- A name beside a place that nothing else has. -/
def spareName (place : Octets) : Octets := Name.join (Name.directory place) "CuAAAAAA".toList

/-- Makes something new at a place, in place of what is there if that is wanted, and says whether
there was something. -/
def replacing (wanted : Bool) (place : Octets)
    (make : Octets → Work m (Except Files.Error Unit)) : Work m (Except Files.Error Bool) := do
  match ← make place with
  | .ok () => return .ok false
  | .error e =>
    if !wanted || e ≠ .alreadyExists then return .error e
    else
      let spare := spareName place
      match ← make spare with
      | .error e => return .error e
      | .ok () => do
        let result ← renameFile spare place
        -- Two names of one file are left as they are by a renaming.
        let _ ← removeFile spare
        return result.map fun _ => true

/-- Makes the target another name of a file, which is found at a place and told as given. -/
def makeName (i : Item) (place shown : Octets) (replaces tells : Bool) : Work m Bool := do
  let p ← inShell (locate place)
  let make (name : Octets) : Work m (Except Files.Error Unit) :=
    withFile name (Access.share i.followsSource p)
  match ← replacing replaces i.place make with
  | .error e => failed ("cannot create hard link ".toList ++ quote i.target ++ " to ".toList ++
      quote shown ++ reason e)
  | .ok isReplaced => do
    if isReplaced && tells then tellRemoved i.target
    return true

def makeLinkTo (i : Item) (text : Octets) (replaces : Bool) : Work m (Except Files.Error Bool) :=
  replacing replaces i.place fun name => withFile name (Access.makeLink ⟨Shell.ofOctets text⟩)

/-- Whether the target's directory is the one that relative links are right in. -/
def isHere (i : Item) : Work m Bool := do
  let directory := Name.directory i.relative
  if i.directory.isNone && directory = ['.'] then return true
  else
    match ← statusOf true ['.'], ← statusOf true (i.beside directory) with
    | .ok here, .ok there => return here.identity = there.identity
    | _, _ => return true

/-- Makes the target a link to the source. -/
def makeLinkToSource (i : Item) (replaces : Bool) : Work m Bool := do
  let isRelative := i.source.head? ≠ some '/'
  let canBe ← if isRelative then i.isHere else pure true
  if !canBe then
    failed (Quoted.quoteBeforeColon i.target ++
      ": can make relative symbolic links only in current directory".toList)
  else
    match ← i.makeLinkTo i.source replaces with
    | .ok _ => return true
    | .error e => failed ("cannot create symbolic link ".toList ++ quote i.target ++
        " to ".toList ++ quote i.source ++ reason e)

/-- Makes the target the same link as the source. -/
def copyLink (i : Item) (replaces : Bool) : Work m Bool := do
  match ← withFile i.source Access.linkTarget with
  | .error e => failedAt "cannot read symbolic link" i.source e
  | .ok p =>
    match ← i.makeLinkTo (Shell.octets p.text) replaces with
    | .ok _ => return true
    | .error e => failedAt "cannot create symbolic link" i.target e

/-! ### What is no file -/

def makeAlike (i : Item) (kind : Files.Kind) : Work m Bool := do
  let p ← inShell (locate i.source)
  match ← withFile i.place (Access.makeAlike p) with
  | .ok () => return true
  | .error e =>
    failedAt (if kind = .pipe then "cannot create fifo" else "cannot create special file") i.target e

/-! ### Content -/

/-- How a target that was to be written cannot be. -/
inductive Obstacle where
  | error (e : Files.Error)
  /-- It is a link to nothing. -/
  | dangling

/-- Opens a target that is there. -/
def openExisting (p : Plan) (i : Item) : Work m (Except Files.Error Unit) := do
  match ← statusOf true i.place with
  | .error e => return .error e
  | .ok _ => if p.copiesData then writeTo i.place .empty else return .ok ()

/-- Makes a target where there must be nothing. -/
def openNew (i : Item) : Work m (Except Obstacle Unit) := do
  -- A name that stands for a directory is no name for a file.
  let name := if i.relative.isEmpty then [] else i.place
  match ← statusOf false name with
  | .ok found => return .error (if found.kind = .link then .dangling else .error .alreadyExists)
  | .error .notFound => do
    match ← writeTo name .empty with
    | .ok () => return .ok ()
    | .error .isDirectory =>
      return .error (.error (if i.target.getLast? = some '/' then .notDirectory else .isDirectory))
    | .error e => return .error (.error e)
  | .error e => return .error (.error e)

/-- Opens a target, which is removed if it is in the way and that is asked for. -/
def openTarget (p : Plan) (i : Item) (isNew : Bool) : Work m (Except Obstacle Unit) := do
  if isNew then i.openNew
  else
    match ← i.openExisting p with
    | .ok () => return .ok ()
    | .error .notFound => i.openNew
    | .error e =>
      if !p.force then return .error (.error e)
      else
        match ← removeFile i.place with
        | .ok () => do
          if p.verbose then tellRemoved i.target
          i.openNew
        | .error .notFound => i.openNew
        | .error _ => return .error (.error e)

/-- Copies the content of the source to the target, which is open. -/
def copyData (p : Plan) (i : Item) : Work m Bool := do
  if !p.copiesData then return true
  else if p.clonesOnly then
    failed ("failed to clone ".toList ++ quote i.target ++ " from ".toList ++ quote i.source ++
      reason .notSupported)
  else
    match ← contentOf i.source with
    | .error e => failedAt "error reading" i.source e
    | .ok content =>
      if content.isEmpty then return true
      else
        match ← writeTo i.place content with
        | .ok () => return true
        | .error e => failedAt "error writing" i.target e

/-- Whether the source can be opened. -/
def openSource (i : Item) : Work m (Except Files.Error Unit) := do
  match ← inShell (reopened i.source) with
  | .inl p => return (← inShell (Access.read p : m _)).map fun _ => ()
  | .inr _ => return .ok ()

/-- Copies a file by its content. -/
def copyFile (p : Plan) (i : Item) (source : Status) (isNew : Bool) : Work m Bool := do
  match ← i.openSource with
  | .error e =>
    failed ("cannot open ".toList ++ quote i.source ++ " for reading".toList ++ reason e)
  | .ok () =>
    match ← i.openTarget p isNew with
    | .error .dangling =>
      failed ("not writing through dangling symlink ".toList ++ quote i.target)
    | .error (.error e) => failedAt "cannot create regular file" i.target e
    | .ok () => do
      let isDone ← i.copyData p
      if isDone && p.keepsTimes then
        let _ ← withFile i.place (Access.setChanged · source.changed)
      return isDone

end Item

end ThreeAddress.Shell.Copy
