import ThreeAddress.Shell.Copy.Copying

/-!
# The program `cp`

Of several operands each is copied for itself; what cannot be copied is reported, and the rest goes
on. A single operand can be given the name of its copy.
-/

namespace ThreeAddress.Shell.Copy

open Files (Access)
open Quoted (quote)

variable {m : Type → Type} [Monad m] [Access m]

/-- How deep directories are followed. -/
def maxDepth : Nat := 2048

/-! ### Copies of operands -/

/-- Copies an operand to a target of its own. -/
def copyOperand (s : Settings) (source target : Octets) (directory : Option (Octets × Nat))
    (presence : Presence) : Work m Bool := do
  modify ({ · with top := (source, target) })
  let item : Item := ⟨source, target, directory, true, s.plan.follows, presence, []⟩
  return (← item.copy s maxDepth false).ok

/-- The parts of a name that are names of the directories which lead to it. -/
def leadingNames (name : Octets) : List Octets :=
  (List.range name.length).filterMap fun n =>
    match name.drop n, (name.take n).getLast? with
    | '/' :: _, some c => if c = '/' then none else some (name.take n)
    | _, _ => none

/-- Why a name is not that of a directory. -/
def directoryProblem (name : Octets) : Work m (Option Files.Error) := do
  if name.isEmpty then return some .notFound
  else
    match ← statusOf true name with
    | .ok found => return if found.kind = .directory then none else some .notDirectory
    | .error e => return some e

/-- A target below a directory. -/
structure Below where
  item : Item
  /-- How much of the target's name is that of the directory. -/
  length : Nat

/-- Makes one of the directories that lead to a target, under the part of its name given. Whether it
had to be made is the result, none if it could not be. -/
def makeParent (s : Settings) (b : Below) (name : Octets) : Work m (Option Bool) := do
  let p := s.plan
  let shown := b.item.target.take b.length ++ name
  let place := b.item.beside (name.dropWhile (· == '/'))
  let found ← statusOf true place
  let isMissing := found.toOption.isNone
  let problem ← if isMissing || p.keepsOwner || p.keepsMode || p.keepsTimes then directoryProblem name
    else pure none
  match problem, found with
  | some e, _ => refuse "failed to get attributes of" name e
  | none, .ok status =>
    if status.kind = .directory then return some false
    else
      deplore (quote shown ++ " exists but is not a directory".toList)
      return none
  | none, .error _ =>
    match ← withFile place Access.makeDirectory with
    | .error e => refuse "cannot make directory" shown e
    | .ok () => do
      if p.verbose then tellLine (name ++ " -> ".toList ++ shown)
      return some true
where
  refuse (doing : String) (name : Octets) (e : Files.Error) : Work m (Option Bool) := do
    let _ ← failedAt doing name e
    return none

def makeEach (s : Settings) (b : Below) : Bool → List Octets → Work m (Option Bool)
  | isNew, [] => return some isNew
  | _, name :: names => do
    match ← makeParent s b name with
    | none => return none
    | some isNew => makeEach s b isNew names

/-- Makes the directories that lead to a target, and gives whether the last of them is new, as far as
it had to be looked at. -/
def makeParents (s : Settings) (b : Below) (isNew : Bool) : Work m (Option Bool) := do
  let target := b.item.target
  let length := Name.directoryLength target
  if length ≤ b.length then return some isNew
  else
    let parent := (target.take length).drop b.length
    match ← statusOf true (b.item.beside (parent.dropWhile (· == '/'))) with
    | .ok found =>
      if found.kind = .directory then return some false
      else
        deplore (quote (target.take length) ++ " exists but is not a directory".toList)
        return none
    | .error _ => makeEach s b isNew (leadingNames (target.drop b.length))

/-- Copies each operand into a directory, under its last step or its whole name. -/
def copyInto (s : Settings) (directory : Octets) : Bool → Bool → List Octets → Work m Bool
  | _, ok, [] => return ok
  | isNew, ok, operand :: operands => do
    let source := if s.plan.stripSlashes then Name.stripSlashes operand else operand
    if s.plan.parents then
      let name := Name.stripSlashes source
      let length := (Name.lead directory name).length
      let relative := (name.takeWhile (· == '/')).length
      let target := Name.join directory name
      let item : Item :=
        ⟨source, target, some (directory, length + relative), true, .never, .unknown, []⟩
      match ← makeParents s ⟨item, length⟩ isNew with
      | none => copyInto s directory isNew false operands
      | some isNew => do
        let presence : Presence := if isNew then .absent else .unknown
        let isDone ← copyOperand s source target item.directory presence
        copyInto s directory isNew (ok && isDone) operands
    else
      let name := Name.lastStep source
      -- What is in a directory above is copied into the directory itself.
      let name := if name = ['.', '.'] then ['.'] else name
      let target := Name.join directory name
      let length := (Name.lead directory name).length
      let isDone ← copyOperand s source target (some (directory, length)) .unknown
      copyInto s directory isNew (ok && isDone) operands

/-! ### Command lines -/

def usage (text : Octets) : Work m Bool := do
  deplore text
  inShell pointToHelp
  return false

def copyIntoAll (s : Settings) (directory : Octets) (operands : List Octets) : Work m Bool := do
  modify ({ · with compares := 2 ≤ operands.length })
  copyInto s directory false true operands

def copyPair (s : Settings) (source target : Octets) (presence : Presence) : Work m Bool := do
  let p := s.plan
  if p.parents then usage "with --parents, the destination must be a directory".toList
  else
    let isFile ← if p.force && s.backup ≠ .none && source = target && presence ≠ .notFound then do
        pure ((← statusOf true target).toOption.any (·.kind = .file))
      else pure false
    if isFile then
      -- A file is copied to its own backup.
      let item : Item := ⟨source, target, none, true, p.follows, presence, []⟩
      let kept ← item.backup s
      copyOperand { s with backup := .none } source kept.name none presence
    else copyOperand s source target none presence

def carryOut (s : Settings) : Work m Bool := do
  let p := s.plan
  match p.operands, p.target with
  | [], _ => usage "missing file operand".toList
  | [only], none => usage ("missing destination file operand after ".toList ++ quote only)
  | operands, target =>
    if p.noTarget then
      match target, operands with
      | some _, _ =>
        failed "cannot combine --target-directory (-t) and --no-target-directory (-T)".toList
      | none, [source, target] => copyPair s source target .unknown
      | none, operands => usage ("extra operand ".toList ++ quote (operands[2]?.getD []))
    else
      match target with
      | some directory =>
        match ← directoryProblem directory with
        | none => copyIntoAll s directory operands
        | some e => failedAt "target directory" directory e
      | none =>
        let last := operands.getLast?.getD []
        match ← directoryProblem last, operands with
        | none, operands => copyIntoAll s last operands.dropLast
        | some e, [source, target] =>
          copyPair s source target (if e = .notFound then .notFound else .unknown)
        | some e, _ => failedAt "target" last e

/-- The value of a variable that programs are given, unless it is empty. -/
def environment? (name : String) : Eff m (Option Octets) := do
  let found := (← context).lookup? name.toList
  return (found.bind fun v => if v.exported then v.value else none).filter (!·.isEmpty)

/-- Which kind of backups a plan asks for, which the environment may say. -/
def backupOf (p : Plan) : Eff m (Except Stop Backup) := do
  if !p.backs then return .ok .none
  else
    match p.backupText.filter (!·.isEmpty), ← environment? "VERSION_CONTROL" with
    | some text, _ => return Backup.ofText text "backup type"
    | none, some text => return Backup.ofText text "$VERSION_CONTROL"
    | none, none => return .ok .likeExisting

def settingsOf (p : Plan) : Eff m (Except Stop Settings) := do
  match p.contradiction? with
  | some e => return .error (.misuse e)
  | none =>
    let suffix ← match p.suffixText with
      | some text => pure (some text)
      | none => environment? "SIMPLE_BACKUP_SUFFIX"
    match ← backupOf p with
    | .error stop => return .error stop
    | .ok backup =>
      if p.keepsContext then return .error (.misuse .contextNotKept)
      else return .ok ⟨p, backup, suffixOf suffix⟩

def halt : Stop → Eff m Nat
  | .help => return 0
  | .version => return 0
  | .misuse e => do
    match e.lines with
    | [] => return 1
    | first :: others => do
      complain first
      others.forM report
      if e.pointsToHelp then pointToHelp
      return 1

def start : Progress := ⟨[], [], false, [], ([], []), [], false⟩

/-- Carries out a plan, and brings all that it tells to standard output. -/
def carryOutAll (s : Settings) : Work m Nat := do
  let ok ← carryOut s
  let result ← flush
  -- Input that no question has come to is lost with the program, if it cannot be read twice.
  if (← get).hasAsked then
    match (← inShell (opened? 0)).map Open.store with
    | some (.kept _) => let _ ← inShell (readAll 0)
    | _ => pure ()
  match result with
  | .ok () => return if ok then 0 else 1
  | .error e => do
    inShell (complain ("write error".toList ++ reason e))
    return 1

def run (arguments : List Octets) : Eff m Nat := do
  let (plan, ignored) := Plan.ofWords arguments
  for _ in List.range ignored do
    complain "warning: ignoring --context; it requires an SELinux-enabled kernel".toList
  match plan with
  | .error stop => halt stop
  | .ok p =>
    match ← settingsOf p with
    | .error stop => halt stop
    | .ok s => return (← (carryOutAll s).run start).1

end ThreeAddress.Shell.Copy
