import ThreeAddress.Files.Lookup

/-!
# Operations on file trees

An operation that fails leaves the tree as it was.
-/

namespace ThreeAddress.Files.Tree

/-- The time of all changes. What has not been changed since the tree began is older. -/
def now : Nat := 1

def status (t : Tree) (follow : Bool) (p : FilePath) : Except Error Status := do
  let (place, n) ← t.find follow p
  let names := t.namesOf place
  return {
    kind := n.kind
    identity := .ofSteps true (names.headD place)
    names := names.length
    size := n.size
    changed := t.changeOf place
    executable := n.kind = .directory || programs.contains place }

def read (t : Tree) (p : FilePath) : Except Error ByteArray := do (← t.find true p).2.content

def write (t : Tree) (p : FilePath) (content : ByteArray) : Except Error Tree := do
  let (here, last) ← t.approach true p
  if isDots last || p.endsInSlash then .error .isDirectory
  else if FilePath.isStepTooLong last then .error .nameTooLong
  else
    let place := here ++ [last]
    let n ← Node.replaced content (t.get? place)
    return (t.putShared place n).setChange place now

def remove (t : Tree) (p : FilePath) : Except Error Tree := do
  let (here, last) ← t.approach false p
  if isDots last then .error .isDirectory
  else if FilePath.isStepTooLong last then .error .nameTooLong
  else
    match t.get? (here ++ [last]) with
    | none => .error .notFound
    | some .directory => .error .isDirectory
    | some _ => if p.endsInSlash then .error .notDirectory else .ok (t.erase (here ++ [last]))

/-- Puts something where there is nothing. -/
def add (t : Tree) (place : Place) (n : Node) : Except Error Tree :=
  if (t.get? place).isSome then .error .alreadyExists else .ok ((t.put place n).setChange place now)

/-- A path without the slashes at its end, which mean nothing for a directory to be made. -/
def ofDirectory (p : FilePath) : FilePath :=
  match p.text.toList.reverse.dropWhile (· == '/') with
  | [] => p
  | kept => ⟨String.ofList kept.reverse⟩

def makeDirectory (t : Tree) (p : FilePath) : Except Error Tree := do
  t.add (← t.newPlace false (ofDirectory p)) .directory

def makeLink (t : Tree) (target p : FilePath) : Except Error Tree := do
  if target.text.isEmpty then .error .notFound
  else
    let place ← t.newPlace false p
    if (t.get? place).isNone && p.endsInSlash then .error .notFound else t.add place (.link target)

def linkTarget (t : Tree) (p : FilePath) : Except Error FilePath := do
  match ← t.find false p with
  | (_, .link target) => .ok target
  | _ => .error (.other "Invalid argument")

def share (t : Tree) (follow : Bool) (p q : FilePath) : Except Error Tree := do
  let (place, n) ← t.find follow p
  let other ← t.newPlace false q
  if (t.get? other).isSome then .error .alreadyExists
  else if q.endsInSlash then .error .notFound
  else
    match n with
    | .directory => .error .notPermitted
    | .device _ => .error .otherDevice
    | n => .ok (t.addName place other n)

def rename (t : Tree) (p q : FilePath) : Except Error Tree := do
  let (place, n) ← t.find false p
  let other ← t.newPlace false q
  match n, t.get? other with
  | .directory, _ => .error .isDirectory
  | _, some .directory => .error .isDirectory
  | _, existing =>
    if q.endsInSlash then .error .notDirectory
    else if existing.isSome && (t.namesOf place).contains other then .ok t
    else .ok ((t.erase other).relabel place other)

def makeAlike (t : Tree) (p q : FilePath) : Except Error Tree := do
  match ← t.find false p with
  | (_, .device d) => t.add (← t.newPlace false q) (.device d)
  | _ => .error .notPermitted

def setChanged (t : Tree) (p : FilePath) (time : Nat) : Except Error Tree := do
  return t.setChange (← t.find true p).1 time

/-- The one name of a place in a directory just above it. -/
def childOf? (directory place : Place) : Option String :=
  match stepsBelow? directory place with
  | some [name] => some name
  | _ => none

/-- The names in a directory, those that were made first before the others. -/
def entries (t : Tree) (p : FilePath) : Except Error (List String) := do
  match ← t.find true p with
  | (place, .directory) => .ok (t.nodes.reverse.filterMap (childOf? place ·.1))
  | _ => .error .notDirectory

def canonical (t : Tree) (p : FilePath) : Except Error FilePath := do
  let (place, _) ← t.find true p
  return .ofSteps true place

/-- What can be read at the places below the working directory, but for directories. -/
def shown (t : Tree) : List (List String × Option ByteArray) :=
  t.contents.map fun (steps, n) =>
    match n with
    | .directory => (steps, none)
    | .link _ =>
      match t.find true (.ofSteps true (workingPlace ++ steps)) with
      | .ok (_, .directory) => (steps, none)
      | .ok (_, n) => (steps, some (n.content.toOption.getD .empty))
      | .error _ => (steps, some .empty)
    | n => (steps, some (n.content.toOption.getD .empty))

/-- Changes the tree if the operation succeeds. -/
def change (f : Tree → Except Error Tree) : StateM Tree (Except Error Unit) := fun t =>
  match f t with
  | .ok after => (.ok (), after)
  | .error e => (.error e, t)

instance : Access (StateM Tree) where
  status follow p := fun t => (t.status follow p, t)
  read p := fun t => (t.read p, t)
  write p content := change (·.write p content)
  remove p := change (·.remove p)
  makeDirectory p := change (·.makeDirectory p)
  entries p := fun t => (t.entries p, t)
  canonical p := fun t => (t.canonical p, t)
  workingDirectory := pure (.ofSteps true workingPlace)
  linkTarget p := fun t => (t.linkTarget p, t)
  makeLink target p := change (·.makeLink target p)
  share follow p q := change (·.share follow p q)
  rename p q := change (·.rename p q)
  makeAlike p q := change (·.makeAlike p q)
  setChanged p time := change (·.setChanged p time)

end ThreeAddress.Files.Tree
