import ThreeAddress.Shell.Octets

/-!
# Names of files

The parts of a name as far as slashes tell. Slashes at the end of a name belong to its last part.
-/

namespace ThreeAddress.Shell.Copy.Name

/-- A name without the slashes at its end, which is not empty unless it was. -/
def stripSlashes (name : Octets) : Octets :=
  match (name.reverse.dropWhile (· == '/')).reverse with
  | [] => name.take 1
  | kept => kept

/-- How long a name is before its last part. -/
def lengthBefore (name : Octets) : Nat :=
  let backwards := name.reverse
  let slashes := backwards.takeWhile (· == '/')
  let last := (backwards.drop slashes.length).takeWhile (· != '/')
  if last.isEmpty then name.length else name.length - slashes.length - last.length

/-- The last part with the slashes at its end. The root has none. -/
def last (name : Octets) : Octets := name.drop (lengthBefore name)

def lastStep (name : Octets) : Octets :=
  let part := last name
  if part.isEmpty then [] else stripSlashes part

/-- How long the name of the directory is that a name is in. -/
def directoryLength (name : Octets) : Nat :=
  let before := name.take (lengthBefore name)
  let kept := (before.reverse.dropWhile (· == '/')).length
  if kept = 0 then (name.takeWhile (· == '/')).length.min 1 else kept

/-- The directory that a name is in. -/
def directory (name : Octets) : Octets :=
  match name.take (directoryLength name) with
  | [] => ['.']
  | found => found

/-- What comes before a name in a directory. -/
def lead (directory name : Octets) : Octets :=
  let step := lastStep directory
  let kept := directory.take (lengthBefore directory) ++ step
  if step.isEmpty then if name.head? = some '/' then kept ++ ['.'] else kept
  else if name.head? = some '/' then kept
  else kept ++ ['/']

/-- A name within a directory. -/
def join (directory name : Octets) : Octets := lead directory name ++ name

def isDots (name : Octets) : Bool := name = ['.'] || name = ['.', '.']

end ThreeAddress.Shell.Copy.Name
