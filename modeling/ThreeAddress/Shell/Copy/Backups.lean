import ThreeAddress.Shell.Copy.Work

/-!
# Backups

What a copy would replace can be kept under a name made from its own: with a suffix, or with the
number after the greatest that such a name has so far.
-/

namespace ThreeAddress.Shell.Copy

open Files (Access Status)
open Quoted (quote)

/-- The suffix of a backup if none is given that can be one. -/
def defaultSuffix : Octets := ['~']

def suffixOf (text : Option Octets) : Octets :=
  match text with
  | some text => if text.isEmpty || Name.last text ≠ text then defaultSuffix else text
  | none => defaultSuffix

/-- The number of a numbered backup of a file. -/
def backupNumber? (file name : Octets) : Option Nat :=
  if !(file ++ ".~".toList).isPrefixOf name || name.getLast? ≠ some '~' then none
  else
    let digits := (name.drop (file.length + 2)).dropLast
    if digits.head?.all (· == '0') || !digits.all Char.isDigit then none
    else some (Nat.ofDigitChars 10 digits 0)

/-- The greatest number of a backup among the names in a directory, or zero. -/
def greatestNumber (file : Octets) (names : List Octets) : Nat :=
  (names.filterMap (backupNumber? file)).foldl max 0

variable {m : Type → Type} [Monad m] [Access m]

/-- What is kept is known by a name in the target's directory, and is found at a place. -/
structure Kept where
  name : Octets
  place : Octets

namespace Item

/-- The backup of a target. One that only has a suffix is found from the working directory, unless
numbers have been looked for in the target's directory. -/
def backup (s : Settings) (i : Item) : Work m Kept := do
  let simple := i.relative ++ s.suffix
  if s.backup = .simple then return ⟨simple, simple⟩
  else
    let names ← withFile (Name.directory i.place) Access.entries
    let found := greatestNumber (Name.last i.relative) ((names.toOption.getD []).map Shell.octets)
    if s.backup = .likeExisting && found = 0 then return ⟨simple, i.beside simple⟩
    else
      let name := i.relative ++ ".~".toList ++ natOctets (found + 1) ++ ['~']
      return ⟨name, i.beside name⟩

/-- Whether a source is what a target's backup would replace. -/
def isOwnBackup (s : Settings) (i : Item) (source : Status) : Work m Bool := do
  let name := i.relative ++ s.suffix
  if Name.last i.source = Name.last i.relative ++ s.suffix then
    return (← statusOf true (i.beside name)).toOption.any (·.identity = source.identity)
  else return false

/-- Gives a target back what was kept of it. -/
def restore (s : Settings) (i : Item) (kept : Kept) : Work m Unit := do
  match ← renameFile (i.beside kept.name) i.place with
  | .error e => let _ ← failedAt "cannot un-backup" i.target e
  | .ok () =>
    if s.plan.verbose then
      tellLine (quote (i.shown kept.name) ++ " -> ".toList ++ quote i.target ++
        " (unbackup)".toList)

end Item

end ThreeAddress.Shell.Copy
