import ThreeAddress.Files.Tree

/-!
# Where paths lead

A path is followed from the root or the working directory, name by name. A link on the way is
replaced by the path that it points to, but no more than a fixed number of times, as links can point
to themselves. The last name of a path may be that of a link which is not to be followed, or of
nothing at all.
-/

namespace ThreeAddress.Files.Tree

def isDots (step : String) : Bool := step == "." || step == ".."

/-- One step on from a directory. The root is above itself. -/
def enter (t : Tree) (here : Place) (step : String) : Except Error Place :=
  if !t.isDirectoryAt here then .error .notDirectory
  else if step == "." then .ok here
  else if step == ".." then .ok here.dropLast
  else if FilePath.isStepTooLong step then .error .nameTooLong
  else if (t.get? (here ++ [step])).isSome then .ok (here ++ [step])
  else .error .notFound

/-- The link that a step in a directory leads to. -/
def linkAt? (t : Tree) (here : Place) (step : String) : Option FilePath :=
  match t.get? (here ++ [step]) with
  | some (.link target) => some target
  | _ => none

/-- How many links are followed for one path. -/
def maxLinks : Nat := 40

/-- Where the target of a link in a directory is looked up from. -/
def linkStart (here : Place) (target : FilePath) : Place := if target.isAbsolute then [] else here

/-- The directory in which the last of some steps is to be taken, and that step; no step stays where
it is. -/
def lead (t : Tree) (follow : Bool) : Nat → Place → List String → Except Error (Place × String)
  | _, here, [] => if t.isDirectoryAt here then .ok (here, ".") else .error .notDirectory
  | links, here, step :: steps =>
    match if follow || !steps.isEmpty then t.linkAt? here step else none with
    | some target =>
      match links with
      | 0 => .error .tooManyLinks
      | links + 1 => lead t follow links (linkStart here target) (target.steps ++ steps)
    | none =>
      if steps.isEmpty then if t.isDirectoryAt here then .ok (here, step) else .error .notDirectory
      else do lead t follow links (← t.enter here step) steps
termination_by links _ steps => (links, steps.length)

/-- Whether a path can be looked up at all, and from where. -/
def start (p : FilePath) : Except Error Place :=
  if p.text.toList.contains '\x00' then .error .badName
  else if p.text.isEmpty then .error .notFound
  else if p.isTooLong then .error .nameTooLong
  else if p.isAbsolute then .ok []
  else .ok workingPlace

/-- The directory in which a path's last step is to be taken, and that step. -/
def approach (t : Tree) (follow : Bool) (p : FilePath) : Except Error (Place × String) := do
  t.lead (follow || p.endsInSlash) maxLinks (← start p) p.steps

/-- The place of a path. A slash at the end asks for a directory. -/
def find (t : Tree) (follow : Bool) (p : FilePath) : Except Error (Place × Node) := do
  let (here, last) ← t.approach follow p
  let place ← t.enter here last
  match t.get? place with
  | none => .error .notFound
  | some .directory => .ok (place, .directory)
  | some n => if p.endsInSlash then .error .notDirectory else .ok (place, n)

/-- The place that a path leads to where something can be made. -/
def newPlace (t : Tree) (follow : Bool) (p : FilePath) : Except Error Place := do
  let (here, last) ← t.approach follow p
  if isDots last then .error .alreadyExists
  else if FilePath.isStepTooLong last then .error .nameTooLong
  else return here ++ [last]

end ThreeAddress.Files.Tree
