import ThreeAddress.Shell.Builtin
import ThreeAddress.Shell.Program

/-!
# What a name runs

A name stands for a function, a built-in command or a program, in this order.
-/

namespace ThreeAddress.Shell

open Files (Access)

inductive Callee where
  | nothing
  | function (body : Command)
  | builtin (name : String)
  | program

/-- The built-in commands that run others or tell of them. -/
def runningNames : List String := [".", "command", "eval", "exec", "hash", "type"]

/-- The built-in commands that take words like assignments. -/
def declaringNames : List String := ["export", "local", "readonly"]

variable {m : Type → Type} [Monad m] [Access m]

def callee (functionsCount : Bool) (name : Octets) : Eff m Callee := do
  let text := String.ofList name
  let isBuiltin := runningNames.contains text || (builtin? (m := m) text).isSome
  match (← context).functions.lookup name with
  | some body => if functionsCount then return .function body else return inShell isBuiltin text
  | none => return inShell isBuiltin text
where
  inShell (isBuiltin : Bool) (text : String) : Callee :=
    if isBuiltin then .builtin text else .program

def searchPath : Eff m Octets := do return ((← context).value? "PATH".toList).getD []

/-- The path of a program. A name with a slash is one. -/
def programPath (path name : Octets) : Eff m (Except Files.Error Octets) :=
  if name.contains '/' then return .ok name else Program.findIn path name

/-! ### Findings -/

/-- Where a program was found, if that is known. -/
def Context.finding? (c : Context) (name : Octets) : Option Finding :=
  c.findings.find? (·.name = name)

def addFinding (name path : Octets) : Eff m Unit :=
  change fun c =>
    { c with
      findings :=
        if (c.finding? name).isSome then
          c.findings.map fun f => if f.name = name then ⟨name, path, false⟩ else f
        else c.findings ++ [⟨name, path, false⟩] }

/-- Finds a program on the search path, and keeps in mind where it is. -/
def seekProgram (name : Octets) : Eff m (Except Files.Error Octets) := do
  let found ← programPath (← searchPath) name
  match found with
  | .ok path => if !name.contains '/' then addFinding name path
  | .error _ => pure ()
  return found

/-- In how many slots findings are kept. -/
def findingSlots : Nat := 31

/-- Finds programs, or tells of those that were found. -/
def hash (arguments : List Octets) : Eff m Nat := do
  let (options, names) ← Builtin.takeOptions ['r'] arguments
  if !options.isEmpty then
    change ({ · with findings := [] })
    return 0
  else if names.isEmpty then
    let told := Builtin.bySlot findingSlots ((← context).findings.map fun f => (f.name, f))
    Builtin.print (told.flatMap fun (_, f) => f.path ++ if f.isDoubtful then "*\n".toList else ['\n'])
  else
    let results ← names.mapM fun name => do
      match ← callee true name with
      | .program => do
        change fun c => { c with findings := c.findings.filter (·.name != name) }
        match ← seekProgram name with
        | .ok _ => return true
        | .error e => do
          warn (.cannotRun name e)
          return false
      | _ => return true
    return if results.all id then 0 else 1

/-! ### Descriptions -/

/-- What a name stands for, in words after the name, and as what is run. -/
def describe? (usesDefault : Bool) (name : Octets) : Eff m (Option (Octets × Octets)) := do
  let c ← context
  match reservedWords.contains (String.ofList name), c.aliases.lookup name with
  | true, _ => return some (" is a shell keyword".toList, name)
  | false, some value =>
    return some (" is an alias for ".toList ++ value,
      "alias ".toList ++ Builtin.definition name value)
  | false, none =>
    match ← callee true name with
    | .nothing => return none
    | .function _ => return some (" is a shell function".toList, name)
    | .builtin text =>
      return some (if specialNames.contains text then " is a special shell builtin".toList
        else " is a shell builtin".toList, name)
    | .program =>
      let finding := if usesDefault then none else c.finding? name
      match finding with
      | some f => return some (" is a tracked alias for ".toList ++ f.path, f.path)
      | none => do
        let path ← if usesDefault then pure Program.defaultPath else searchPath
        match ← programPath path name with
        | .error _ => return none
        | .ok path =>
          match ← Program.examineAt path with
          | .error .notFound => return none
          | .error .notDirectory => return none
          | _ => return some (" is ".toList ++ path, path)

/-- Says what names stand for, each in a line. -/
def describeAll (usesDefault : Bool) (names : List Octets) : Eff m Nat := do
  let statuses ← names.mapM fun name => do
    match ← describe? usesDefault name with
    | some (text, _) => Builtin.line (name ++ text)
    | none => do
      let _ ← Builtin.line (name ++ ": not found".toList)
      return 127
  return statuses.foldl max 0

/-- What `command` does with options that ask about a name. -/
def tell (arguments : List Octets) : Eff m Nat := do
  let (options, operands) ← Builtin.takeOptions "pvV".toList arguments
  match operands with
  | [] => return 0
  | name :: _ =>
    let usesDefault := options.contains 'p'
    if options.contains 'V' then describeAll usesDefault [name]
    else if options.contains 'v' then
      match ← describe? usesDefault name with
      | some (_, text) => Builtin.line text
      | none => return 127
    else return 0

end ThreeAddress.Shell
