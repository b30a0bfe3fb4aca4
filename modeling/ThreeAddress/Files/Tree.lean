import ThreeAddress.Files.Node

/-!
# File trees

A tree of files, directories and links from the root down, as a list of places with what stands
there. A place is the list of names that leads to it; the empty place is the root. Several places
may hold one and the same file: then they hold the same node, and what is written at one of them is
written at all. The working directory is always there, and what is above it can be reached but holds
only what every system has.
-/

namespace ThreeAddress.Files

abbrev Place := List String

structure Tree where
  nodes : List (Place × Node)
  /-- The places that hold one and the same file, group by group. -/
  shared : List (List Place)
  /-- When the files were changed that have been since the tree began. -/
  changes : List (Place × Nat)

namespace Tree

def workingPlace : Place := ["tmp", "work"]

/-- The files outside the working directory that can be run. -/
def programs : List Place :=
  ["[", "cp", "dash", "echo", "false", "printf", "test", "true"].map fun name =>
    ["usr", "bin", name]

def get? (t : Tree) : Place → Option Node
  | [] => some .directory
  | place => t.nodes.lookup place

def isDirectoryAt (t : Tree) (place : Place) : Bool :=
  match t.get? place with
  | some .directory => true
  | _ => false

def erase (t : Tree) (place : Place) : Tree where
  nodes := t.nodes.filter (·.1 != place)
  shared := t.shared.map (·.filter (· != place))
  changes := t.changes.filter (·.1 != place)

/-- Puts a node where there may already be one, whose turn among the others it then takes. -/
def put (t : Tree) (place : Place) (n : Node) : Tree :=
  { t with
    nodes :=
      if (t.nodes.lookup place).isSome then
        t.nodes.map fun e => if e.1 == place then (place, n) else e
      else (place, n) :: t.nodes }

/-- Moves a node to a place where there is none. -/
def relabel (t : Tree) (place other : Place) : Tree :=
  let renamed (q : Place) : Place := if q == place then other else q
  { nodes := t.nodes.map fun e => (renamed e.1, e.2)
    shared := t.shared.map (·.map renamed)
    changes := t.changes.map fun e => (renamed e.1, e.2) }

theorem lookup_filter_ne (place q : Place) (nodes : List (Place × Node)) :
    (nodes.filter (·.1 != place)).lookup q = if q = place then none else nodes.lookup q := by
  induction nodes with
  | nil => simp
  | cons entry nodes ih =>
    obtain ⟨r, old⟩ := entry
    by_cases hr : r = place
    · rw [List.filter_cons_of_neg (by simp [hr]), ih]
      split
      · rfl
      · next hq => rw [List.lookup_cons, beq_false_of_ne (hr ▸ hq)]
    · rw [List.filter_cons_of_pos (by simp [hr]), List.lookup_cons, List.lookup_cons, ih]
      split
      · next hq => rw [if_neg (eq_of_beq hq ▸ hr)]
      · rfl

theorem get?_erase (t : Tree) {place q : Place} (h : q ≠ []) :
    (t.erase place).get? q = if q = place then none else t.get? q := by
  cases q with
  | nil => exact absurd rfl h
  | cons step steps => exact lookup_filter_ne place (step :: steps) t.nodes

theorem lookup_map_put (place q : Place) (n : Node) (nodes : List (Place × Node)) :
    (nodes.map fun e => if e.1 == place then (place, n) else e).lookup q =
      if q = place then (nodes.lookup q).map fun _ => n else nodes.lookup q := by
  induction nodes with
  | nil => simp
  | cons entry nodes ih =>
    obtain ⟨r, old⟩ := entry
    by_cases hr : r = place <;> by_cases hq : q = r <;>
      simp_all [List.lookup_cons, beq_false_of_ne]

theorem get?_put (t : Tree) {place q : Place} (n : Node) (h : q ≠ []) :
    (t.put place n).get? q = if q = place then some n else t.get? q := by
  cases q with
  | nil => exact absurd rfl h
  | cons step steps =>
    change (t.put place n).nodes.lookup (step :: steps) = _
    unfold put
    by_cases hs : (t.nodes.lookup place).isSome
    · obtain ⟨old, ho⟩ := Option.isSome_iff_exists.1 hs
      simp only [hs, if_true, lookup_map_put]
      split
      · next hq => rw [hq, ho]; rfl
      · rfl
    · simp only [hs, Bool.false_eq_true, if_false, List.lookup_cons]
      by_cases hq : step :: steps = place
      · simp [hq]
      · rw [beq_false_of_ne hq, if_neg hq]
        rfl

/-! ### Files with several names -/

/-- The places that hold the same file as this one, which is the first of them if it has no
other. -/
def namesOf (t : Tree) (place : Place) : List Place :=
  (t.shared.find? (·.contains place)).getD [place]

/-- Puts a node at all places that hold the same file. -/
def putShared (t : Tree) (place : Place) (n : Node) : Tree :=
  (t.namesOf place).foldl (fun t q => t.put q n) t

def changeOf (t : Tree) (place : Place) : Nat := (t.changes.lookup place).getD 0

def setChange (t : Tree) (place : Place) (time : Nat) : Tree :=
  let names := t.namesOf place
  { t with changes := names.map (·, time) ++ t.changes.filter fun c => !names.contains c.1 }

/-- Lets the second place, where there is nothing, hold the same file as the first. -/
def addName (t : Tree) (place other : Place) (n : Node) : Tree :=
  let names := t.namesOf place
  let t' := t.put other n
  { t' with
    shared := (names ++ [other]) :: t.shared.filter (· != names)
    changes := (other, t.changeOf place) :: t.changes }

/-! ### Below the working directory -/

/-- Puts a node below the working directory, with the directories above it that are not there. -/
def plant (t : Tree) (steps : List String) (n : Node) : Tree :=
  let above := (List.range steps.length).map fun n => workingPlace ++ steps.take n
  let missing := above.filter fun q => (t.get? q).isNone
  (missing.foldl (fun t q => t.put q .directory) t).put (workingPlace ++ steps) n

/-- What a place is called in a directory at or above it. -/
def stepsBelow? : Place → Place → Option (List String)
  | [], place => some place
  | _ :: _, [] => none
  | name :: directory, step :: place => if step = name then stepsBelow? directory place else none

/-- What stands below the working directory. -/
def contents (t : Tree) : List (List String × Node) :=
  t.nodes.filterMap fun (place, n) =>
    match stepsBelow? workingPlace place with
    | some (step :: steps) => some (step :: steps, n)
    | _ => none

/-- What was written to a device that keeps it. -/
def written (t : Tree) (name : String) : ByteArray :=
  match t.get? ["dev", name] with
  | some (.device (.stream bytes)) => bytes
  | _ => .empty

end Tree

end ThreeAddress.Files
