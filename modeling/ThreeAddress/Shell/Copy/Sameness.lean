import ThreeAddress.Shell.Copy.Work

/-!
# Copies of a file to itself

A file must not be copied over itself, under whatever names. Of two names of the same file one may
still be a link, or another name that is replaced without a change to the file.
-/

namespace ThreeAddress.Shell.Copy

open Files (Access Status)

inductive Verdict where
  | copy
  | same
  /-- There is nothing to do. -/
  | settled
  deriving DecidableEq, Repr

variable {m : Type → Type} [Monad m] [Access m]

namespace Item

/-- Judges a source and a target that may both be links, by what is known of these. -/
def judgeLinks (s : Settings) (i : Item) (source target : Status) : Work m Verdict := do
  let isSame := source.identity = target.identity
  let isLink := source.kind = .link || target.kind = .link
  let entry ← isSameEntry i.source i.place
  if s.backup ≠ .none then
    if !isSame then
      return if i.following ≠ .never && source.kind = .link && target.kind ≠ .link then .same
        else .copy
    else return if entry then .same else .copy
  else if s.plan.removeFirst && target.kind = .link then return .copy
  else if s.plan.removeFirst && isSame && 1 < target.names && !entry then return .copy
  else if !isLink && !isSame then return .copy
  else if !isLink && s.plan.hardLink then return .settled
  else if s.plan.symbolicLink && target.kind = .link then return .copy
  else if i.following ≠ .never then return .same
  else
    match ← statusOf true i.source, ← statusOf true i.place with
    | .ok source', .ok target' =>
      if source'.identity ≠ target'.identity then return .copy
      else if s.plan.hardLink then return if target.kind = .link then .copy else .settled
      else return .same
    | _, _ => return .copy

/-- Judges by what is known of a source and a target, links to which may have been followed. -/
def judge (s : Settings) (i : Item) (source target : Status) : Work m Verdict := do
  let isSame := source.identity = target.identity
  if isSame && s.plan.hardLink then return .settled
  else if i.following = .never then
    if source.kind = .link && target.kind = .link then
      if ← isSameEntry i.source i.place then return .same
      else return if isSame && s.backup = .none then .settled else .copy
    else i.judgeLinks s source target
  else if !isSame then return .copy
  else
    match ← statusOf false i.source, ← statusOf false i.place with
    | .ok source', .ok target' =>
      if source'.kind = .link && target'.kind = .link && s.plan.removeFirst then return .copy
      else i.judgeLinks s source' target'
    | _, _ => return .copy

end Item

end ThreeAddress.Shell.Copy
