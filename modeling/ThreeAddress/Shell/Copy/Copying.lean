import ThreeAddress.Shell.Copy.Backups
import ThreeAddress.Shell.Copy.Making
import ThreeAddress.Shell.Copy.Sameness

/-!
# Copying with all that is in it

What stands at a target decides first whether a copy is made at all, and is removed or kept as a
backup if the copy needs that. A directory is copied entry by entry, unless that would go on within
the copy. A copy that fails gives the target back its backup.
-/

namespace ThreeAddress.Shell.Copy

open Files (Access FilePath Status)
open Quoted (quote)

/-- What a copy came to. -/
structure Result where
  ok : Bool
  /-- Whether it would go on within itself. -/
  isIntoItself : Bool
  /-- Whether a directory has been made for the operand at hand. -/
  hasMade : Bool

variable {m : Type → Type} [Monad m] [Access m]

/-! ### The target -/

/-- What there was at a target once it was made ready. -/
structure Ready where
  found : Option Status
  /-- Whether there is nothing now. -/
  isNew : Bool
  kept : Option Kept

namespace Item

/-- Whether a link at the target counts as such for a kind of source. -/
def targetsLink (s : Settings) (source : Status) : Bool :=
  let p := s.plan
  (source.kind ≠ .file && (!p.readsAll || source.kind = .directory || source.kind = .link)) ||
    p.symbolicLink || p.hardLink || s.backup ≠ .none || p.removeFirst

/-- Why a source of one kind does not go where something of another kind is. -/
def kindProblem? (i : Item) (source target : Status) : Option Octets :=
  if target.kind ≠ .directory && source.kind = .directory then
    some ("cannot overwrite non-directory ".toList ++ quote i.target ++ " with directory ".toList ++
      quote i.source)
  else if target.kind = .directory && source.kind ≠ .directory then
    some ("cannot overwrite directory ".toList ++ quote i.target ++ " with non-directory".toList)
  else none

/-- Makes the target another name of an earlier copy of the same file. -/
def makeEarlier (s : Settings) (i : Item) (earlier : Octets) : Work m Bool :=
  { i with source := i.beside earlier }.makeName (i.beside earlier) (i.shown earlier) true
    s.plan.verbose

/-- Keeps a backup of the target, if there is reason to; the result is none if that fails. -/
def keep (s : Settings) (i : Item) (source target : Status) : Work m (Option Ready) := do
  if s.backup ≠ .numbered && (← i.isOwnBackup s source) then
    deplore ("backing up ".toList ++ quote i.target ++ " might destroy source;  ".toList ++
      quote i.source ++ " not copied".toList)
    return none
  else
    let kept ← i.backup s
    match ← renameFile i.place kept.place with
    | .ok () => return some ⟨some target, true, some kept⟩
    | .error .notFound => return some ⟨some target, true, none⟩
    | .error e => do
      let _ ← failedAt "cannot backup" i.target e
      return none

/-- Removes the target. -/
def clear (s : Settings) (i : Item) (target : Status) : Work m (Option Ready) := do
  match ← removeFile i.place with
  | .ok () => done
  | .error .notFound => done
  | .error e => do
    let _ ← failedAt "cannot remove" i.target e
    return none
where
  done : Work m (Option Ready) := do
    if s.plan.verbose then tellRemoved i.target
    return some ⟨some target, true, none⟩

/-- Makes ready a target where there is something. If no copy is to be made, the result says whether
that is as it should be. -/
def prepareExisting (s : Settings) (i : Item) (source target : Status) :
    Work m (Except Bool Ready) := do
  let p := s.plan
  let isDirectory := source.kind = .directory
  let verdict ← if p.existing = .skip then pure .copy else i.judge s source target
  if verdict = .same then
    return .error (← failed (quote i.source ++ " and ".toList ++ quote i.target ++
      " are the same file".toList))
  else if p.update && p.existing ≠ .skip && !isDirectory && source.changed ≤ target.changed then
    match ← remember source.identity i.relative with
    | some earlier => return .error (← i.makeEarlier s earlier)
    | none => return .error true
  else if !isDirectory && p.existing = .skip then return .error true
  else
    let mayGoOn ← if !isDirectory && p.existing = .ask then mayOverwrite i.target else pure true
    if !mayGoOn || verdict = .settled then return .error true
    else
      let isCopy := (← get).copies.contains (i.relative, target.identity)
      match i.kindProblem? source target with
      | some problem => return .error (← failed problem)
      | none =>
        if target.kind = .directory then return .ok ⟨some target, false, none⟩
        else if i.isOperand && s.backup ≠ .numbered && isCopy then
          return .error (← failed ("will not overwrite just-created ".toList ++ quote i.target ++
            " with ".toList ++ quote i.source))
        else if s.backup ≠ .none && !Name.isDots (Name.lastStep i.source) then
          return (← i.keep s source target).elim (.error false) .ok
        else if p.removeFirst || (p.copiesData && ((p.keepsLinks && 1 < target.names) ||
            (i.following = .never && source.kind ≠ .file))) then
          return (← i.clear s target).elim (.error false) .ok
        else return .ok ⟨some target, false, none⟩

/-- Makes the target ready for a source. -/
def prepare (s : Settings) (i : Item) (source : Status) : Work m (Except Bool Ready) := do
  let isLinkMeant := targetsLink s source
  if i.presence = .absent || (i.presence = .notFound && !isLinkMeant) then
    return .ok ⟨none, true, none⟩
  else
    match ← statusOf (!isLinkMeant) i.place with
    | .ok target => i.prepareExisting s source target
    | .error .notFound => return .ok ⟨none, true, none⟩
    | .error e =>
      if e = .tooManyLinks && s.plan.force then return .ok ⟨none, false, none⟩
      else return .error (← failedAt "cannot stat" i.target e)

/-- Whether the target is a link that an operand before has been copied to. -/
def isThroughCopy (s : Settings) (i : Item) : Work m Bool := do
  let progress ← get
  if i.isOperand && progress.compares && s.backup = .none then
    match ← statusOf false i.place with
    | .ok found =>
      return found.kind = .link && progress.copies.contains (i.relative, found.identity)
    | .error _ => return false
  else return false

/-! ### Announcements -/

def announce (i : Item) (kept : Option Kept) : Work m Unit :=
  let backup := kept.elim [] fun k => " (backup: ".toList ++ quote (i.shown k.name) ++ [')']
  tellLine (quote i.source ++ " -> ".toList ++ quote i.target ++ backup)

/-- An earlier copy of the same thing within the target directory, of which a copy of this one is to
be another name, or which it must not be a copy within. -/
def earlier? (s : Settings) (i : Item) (source : Status) : Work m (Option Octets) := do
  let p := s.plan
  if p.recursive && source.kind = .directory then
    if i.isOperand then remember source.identity i.relative
    else return (← get).made.lookup source.identity
  else if p.keepsLinks && !p.hardLink && (1 < source.names || i.following = .always ||
      (i.isOperand && i.following = .operands)) then
    remember source.identity i.relative
  else return none

/-- What becomes of a directory that has a copy already; nothing if it is copied again. -/
def repeatDirectory (i : Item) (earlier : Octets) : Work m (Option Result) := do
  let top := (← get).top
  if ← isSameEntry i.source (i.beside earlier) then
    deplore ("cannot copy a directory, ".toList ++ quote top.1 ++ ", into itself, ".toList ++
      quote top.2)
    return some ⟨false, true, false⟩
  else if ← isSameEntry i.place (i.beside earlier) then
    deplore ("warning: source directory ".toList ++ quote top.1 ++
      " specified more than once".toList)
    return some ⟨true, false, false⟩
  else if i.followsSource then return none
  else
    deplore ("will not create hard link ".toList ++ quote i.target ++ " to directory ".toList ++
      quote (i.shown earlier))
    return some ⟨false, false, false⟩

/-! ### Copies -/

/-- An entry of a directory that is copied. -/
def entry (i : Item) (source : Status) (isNew : Bool) (name : Octets) : Item :=
  { i with
    source := Name.join i.source name
    target := Name.join i.target name
    isOperand := false
    following := if i.following = .always then .always else .never
    presence := if isNew then .absent else .unknown
    ancestors := source.identity :: i.ancestors }

/-- Copies entries one after the other, until one goes on within itself. -/
def copyEntries (copy : Item → Work m Result) : List Item → Result → Work m Result
  | [], result => return result
  | i :: rest, result => do
    let r ← copy i
    let result : Result :=
      ⟨result.ok && r.ok, r.isIntoItself, result.hasMade || r.hasMade⟩
    if r.isIntoItself then return result else copyEntries copy rest result

/-- Makes a directory for the copies of what is in another. -/
def makeTarget (s : Settings) (i : Item) (hasMade : Bool) : Work m Bool := do
  match ← withFile i.place Access.makeDirectory with
  | .error e => failedAt "cannot create directory" i.target e
  | .ok () => do
    if !hasMade then
      match ← statusOf false i.place with
      | .ok made => let _ ← remember made.identity i.relative
      | .error _ => pure ()
    if s.plan.verbose then i.announce none
    return true

def copyDirectory (s : Settings) (copy : Bool → Item → Work m Result) (i : Item) (source : Status)
    (ready : Ready) (isFirst hasMade : Bool) : Work m Result := do
  let makes := ready.isNew || ready.found.all (·.kind ≠ .directory)
  let isReady ← if i.ancestors.contains source.identity then
      failed ("cannot copy cyclic symbolic link ".toList ++ quote i.source)
    else if makes then i.makeTarget s hasMade
    else pure true
  if !isReady then
    if isFirst then forget source.identity
    return ⟨false, false, hasMade⟩
  else
    match ← withFile i.source Access.entries with
    | .error e => return ⟨← failedAt "cannot access" i.source e, false, hasMade || makes⟩
    | .ok names => do
      let items := names.map fun n => i.entry source ready.isNew (Shell.octets n)
      let result ← copyEntries (copy (hasMade || makes)) items ⟨true, false, false⟩
      if s.plan.keepsTimes then
        let _ ← withFile i.place (Access.setChanged · source.changed)
      return result

/-- Copies what is no directory. -/
def copySingle (s : Settings) (i : Item) (source : Status) (ready : Ready) : Work m Bool := do
  let p := s.plan
  if p.symbolicLink then i.makeLinkToSource p.force
  else if p.hardLink then i.makeName i.source i.source (p.force || p.existing = .ask) false
  else if source.kind = .file || (p.readsAll && source.kind ≠ .link) then
    i.copyFile p source ready.isNew
  else if source.kind = .link then i.copyLink p.force
  else i.makeAlike source.kind

/-- Copies to a target that is ready. -/
def copyReady (s : Settings) (copy : Bool → Item → Work m Result) (i : Item) (source : Status)
    (ready : Ready) (hasMade : Bool) : Work m Result := do
  let isDirectory := source.kind = .directory
  if s.plan.verbose && !isDirectory then i.announce ready.kept
  let earlier ← i.earlier? s source
  let result ← if isDirectory then do
      match ← earlier.mapM i.repeatDirectory with
      | some (some result) => pure { result with hasMade }
      | _ => i.copyDirectory s copy source ready earlier.isNone hasMade
    else do
      match earlier with
      | some name => pure ⟨← i.makeEarlier s name, false, hasMade⟩
      | none => pure ⟨← i.copySingle s source ready, false, hasMade⟩
  if !result.ok && !isDirectory then
    if earlier.isNone then forget source.identity
    match ready.kept with
    | some kept => i.restore s kept
    | none => pure ()
  else if i.isOperand && (← get).compares && (earlier.isNone || isDirectory) then
    match ← statusOf false i.place with
    | .ok found =>
      modify fun progress =>
        { progress with copies := (i.relative, found.identity) :: progress.copies }
    | .error _ => pure ()
  return result

/-- Makes one copy, with all that is in it. Whether a directory has been made for the operand at hand
is told and given. -/
def copy (s : Settings) : Nat → Bool → Item → Work m Result
  | 0, hasMade, _ => return ⟨false, false, hasMade⟩
  | fuel + 1, hasMade, i => do
    let result (ok : Bool) : Result := ⟨ok, false, hasMade⟩
    match ← statusOf (i.following ≠ .never) i.source with
    | .error e => return result (← failedAt "cannot stat" i.source e)
    | .ok source =>
      let progress ← get
      let compares := i.isOperand && progress.compares
      let isRepeated ← if compares && source.kind ≠ .directory && s.backup = .none then
          isAmong i.source source.identity progress.sources
        else pure false
      if source.kind = .directory && !s.plan.recursive then
        return result (← failed ("-r not specified; omitting directory ".toList ++ quote i.source))
      else if isRepeated then
        deplore ("warning: source file ".toList ++ quote i.source ++
          " specified more than once".toList)
        return result true
      else
        if compares then
          modify fun progress =>
            { progress with sources := (i.source, source.identity) :: progress.sources }
        match ← i.prepare s source with
        | .error ok => return result ok
        | .ok ready =>
          if ← i.isThroughCopy s then
            return result (← failed ("will not copy ".toList ++ quote i.source ++
              " through just-created symlink ".toList ++ quote i.target))
          else i.copyReady s (copy s fuel) source ready hasMade

end Item

end ThreeAddress.Shell.Copy
