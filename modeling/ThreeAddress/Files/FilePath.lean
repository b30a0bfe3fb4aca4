/-!
# Paths

A path is kept as it was given. Its steps are what stands between slashes, empty steps left out;
`FilePath.above` are the paths that must exist before it can, the nearest first.
-/

namespace ThreeAddress.Files

structure FilePath where
  text : String
  deriving DecidableEq, Repr

namespace FilePath

def isAbsolute (p : FilePath) : Bool :=
  p.text.toList.head? == some '/'

def endsInSlash (p : FilePath) : Bool :=
  p.text.toList.getLast? == some '/'

def steps (p : FilePath) : List String :=
  ((p.text.toList.splitOn '/').filter (· ≠ [])).map String.ofList

/-- The steps without those that stay where they are, but for a leading one. -/
def plainSteps (p : FilePath) : List String :=
  match p.steps with
  | [] => []
  | first :: rest =>
    let rest := rest.filter (· ≠ ".")
    if p.isAbsolute && first == "." then rest else first :: rest

def ofSteps (absolute : Bool) (steps : List String) : FilePath :=
  ⟨(if absolute then "/" else "") ++ String.intercalate "/" steps⟩

/-- The paths above this one. The last of a relative path's is empty. -/
def above (p : FilePath) : List FilePath :=
  (List.range p.plainSteps.length).reverse.map fun n => ofSteps p.isAbsolute (p.plainSteps.take n)

def join (directory : FilePath) (name : String) : FilePath :=
  if directory.text.isEmpty || directory.endsInSlash then ⟨directory.text ++ name⟩
  else ⟨directory.text ++ "/" ++ name⟩

/-- A path as it is meant in a directory. -/
def within (p directory : FilePath) : FilePath :=
  if p.isAbsolute then p else directory.join p.text

/-- How many bytes the name of a step can have. -/
def maxStep : Nat := 255

/-- How many bytes a path can have. -/
def maxLength : Nat := 4095

def isStepTooLong (step : String) : Bool := maxStep < step.utf8ByteSize

def isTooLong (p : FilePath) : Bool := maxLength < p.text.utf8ByteSize

end FilePath

end ThreeAddress.Files
