import ThreeAddress.Shell.Builtin.Basic

/-!
# The working directory

A shell goes by the names of directories: a step up undoes the step before it, whatever that led to,
unless links are to be resolved.
-/

namespace ThreeAddress.Shell.Builtin

open Files (Access FilePath)

variable {m : Type → Type} [Monad m] [Access m]

def workingDirectory : Eff m Octets := do
  match (← context).directory with
  | some d => return d
  | none => return Shell.octets (← (Access.workingDirectory : m _)).text

/-- What a path starts from: the root, of which two slashes make another one. -/
def rootOf : Octets → Octets
  | '/' :: '/' :: '/' :: _ => ['/']
  | '/' :: '/' :: _ => ['/', '/']
  | _ => ['/']

/-- The steps of a path, in which steps up have been undone. -/
def stepsOf (before : List Octets) (path : Octets) : List Octets :=
  (path.splitOn '/').foldl (fun steps step =>
    if step.isEmpty || step = ['.'] then steps
    else if step = ['.', '.'] then steps.dropLast
    else steps ++ [step]) before

/-- The name of the directory that a path leads to from another, as far as names tell. -/
def follow (directory path : Octets) : Octets :=
  let isAbsolute := path.head? = some '/'
  let root := rootOf (if isAbsolute then path else directory)
  let before := if isAbsolute then [] else stepsOf [] directory
  root ++ List.intercalate ['/'] (stepsOf before path)

/-- Whether links are to be resolved: the last option that differs from the one before counts. -/
def resolves (options : List Char) : Bool := options.getLast? = some 'P'

/-- Whether a path leads to a directory. -/
def isDirectory (path : Octets) : Eff m Bool := do
  return (← (Files.kind? (← locate path) : m _)) = some .directory

/-- Whether a path is looked for nowhere but where it says. -/
def isSettled (path : Octets) : Bool :=
  path.head? = some '/' || path = ['.'] || path = ['.', '.'] ||
    path.take 2 = "./".toList || path.take 3 = "../".toList

/-- The first directory of some that a path leads to a directory from, and whether it was named. -/
def findDirectory (path : Octets) : List Octets → Eff m (Option (Octets × Bool))
  | [] => return none
  | [] :: places => do
    if ← isDirectory path then return some (path, false) else findDirectory path places
  | place :: places => do
    let found := place ++ '/' :: path
    if ← isDirectory found then return some (found, true) else findDirectory path places

/-- Goes to a directory, and says so if asked to. -/
def enter (target path : Octets) (isResolved isTold : Bool) : Eff m Nat := do
  let before ← workingDirectory
  let named := follow before path
  let asked := if isResolved then path else named
  match ← (Access.canonical (← locate asked) : m _), ← isDirectory asked with
  | .ok place, true => do
    let after := if isResolved then Shell.octets place.text else named
    assign "OLDPWD".toList before
    mark "OLDPWD".toList ({ · with exported := true })
    change fun c =>
      { c with
        directory := some after
        findings := c.findings.map ({ · with isDoubtful := true }) }
    assign "PWD".toList after
    mark "PWD".toList ({ · with exported := true })
    if isTold then line after else return 0
  | _, _ => fail (.cannotChangeDirectory target)

def cd (arguments : List Octets) : Eff m Nat := do
  let (options, operands) ← takeOptions ['L', 'P'] arguments
  let c ← context
  let isBack := operands.head? = some ['-']
  let target := match operands.head? with
    | none => (c.value? "HOME".toList).getD []
    | some target => if isBack then (c.value? "OLDPWD".toList).getD [] else target
  let isResolved := resolves options
  if isSettled target then enter target target isResolved isBack
  else
    let target := if target.isEmpty then ['.'] else target
    let places := ((c.value? "CDPATH".toList).getD []).splitOn ':'
    match ← findDirectory target places with
    | some (path, isNamed) => enter target path isResolved (isBack || isNamed)
    | none => enter target target isResolved isBack

def pwd (arguments : List Octets) : Eff m Nat := do
  let (options, _) ← takeOptions ['L', 'P'] arguments
  let directory ← workingDirectory
  if resolves options then
    match ← (Access.canonical ⟨Shell.ofOctets directory⟩ : m _) with
    | .ok place => line (Shell.octets place.text)
    | .error _ => line directory
  else line directory

end ThreeAddress.Shell.Builtin
