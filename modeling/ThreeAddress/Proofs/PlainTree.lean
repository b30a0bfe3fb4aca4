import ThreeAddress.Proofs.Paths

/-!
# Trees of files and directories

In a tree without links and devices a path leads to the place that its steps tell
(`Plain.newPlace_eq_ok_iff`), through directories that stay where they are. So what an operation
does to such a tree can be said place by place: a file is written at all names of its place
(`Plain.write_eq_ok_iff`, `Plain.get?_overwrite`), and a removal takes one name away
(`Plain.remove_eq_ok_iff`).
-/

namespace ThreeAddress.Files.Tree

variable {t u : Tree} {p : FilePath} {q r here : Place} {s last : String} {steps : List String}

/-- There is nothing but files and directories, and what has several names is a file. -/
structure Plain (t : Tree) : Prop where
  kinds : ∀ q n, t.get? q = some n → n = .directory ∨ ∃ c, n = .file c
  names : ∀ group ∈ t.shared, ∀ q ∈ group, ∃ c, t.get? q = some (.file c)

theorem isDirectoryAt_iff : t.isDirectoryAt q = true ↔ t.get? q = some .directory := by
  unfold isDirectoryAt
  split <;> simp_all

section Lead

theorem Plain.linkAt?_eq_none (ht : t.Plain) (here : Place) (s : String) :
    t.linkAt? here s = none := by
  unfold linkAt?
  split
  · next target h => rcases ht.kinds _ _ h with h | ⟨c, h⟩ <;> cases h
  · rfl

theorem lead_nil (t : Tree) (follow : Bool) (links : Nat) (here : Place) :
    t.lead follow links here []
      = if t.isDirectoryAt here then .ok (here, ".") else .error .notDirectory := by
  rw [lead]

theorem Plain.lead_singleton (ht : t.Plain) (follow : Bool) (links : Nat) (here : Place)
    (s : String) : t.lead follow links here [s]
      = if t.isDirectoryAt here then .ok (here, s) else .error .notDirectory := by
  rw [lead, ht.linkAt?_eq_none, ite_self]
  rfl

theorem Plain.lead_cons_cons (ht : t.Plain) (follow : Bool) (links : Nat) (here : Place)
    (s s' : String) (steps : List String) : t.lead follow links here (s :: s' :: steps)
      = t.enter here s >>= fun there => t.lead follow links there (s' :: steps) := by
  rw [lead, ht.linkAt?_eq_none, ite_self]
  rfl

theorem of_enter (h : t.enter here s = .ok q) :
    t.isDirectoryAt here = true ∧ FilePath.isStepTooLong s = false ∧ q = Place.step here s := by
  unfold enter at h
  unfold Place.step
  split_ifs at h with hhere hdot hdots hlong hsome
  · cases h
    refine ⟨by simpa using hhere, ?_, by simp_all⟩
    rw [eq_of_beq hdot]
    rfl
  · cases h
    refine ⟨by simpa using hhere, ?_, by simp_all⟩
    rw [eq_of_beq hdots]
    rfl
  · cases h
    exact ⟨by simpa using hhere, by simpa using hlong, by simp_all⟩

theorem enter_of_directory (hhere : t.isDirectoryAt here = true)
    (hlong : FilePath.isStepTooLong s = false)
    (hthere : t.isDirectoryAt (Place.step here s) = true) :
    t.enter here s = .ok (Place.step here s) := by
  have hthere := isDirectoryAt_iff.1 hthere
  unfold enter
  unfold Place.step at hthere ⊢
  split_ifs <;> simp_all

theorem arrive_eq_ok_iff :
    (if t.isDirectoryAt here = true then .ok (here, s) else .error Error.notDirectory)
        = Except.ok (q, last)
      ↔ (∀ r ∈ Place.along here [], t.isDirectoryAt r = true) ∧ q = here ∧ last = s := by
  by_cases hhere : t.isDirectoryAt here = true
  · rw [if_pos hhere]
    constructor
    · rintro ⟨⟩
      exact ⟨fun r hr => List.mem_singleton.1 hr ▸ hhere, rfl, rfl⟩
    · rintro ⟨-, rfl, rfl⟩
      rfl
  · rw [if_neg hhere]
    constructor
    · rintro ⟨⟩
    · rintro ⟨h, -⟩
      exact absurd (h here (List.mem_singleton_self here)) hhere

/-- The steps of a path but for the last are taken from one directory to the next. -/
theorem Plain.lead_eq_ok_iff (ht : t.Plain) {follow : Bool} {links : Nat} :
    t.lead follow links here steps = .ok (q, last)
      ↔ (∀ r ∈ Place.along here steps.dropLast, t.isDirectoryAt r = true)
        ∧ (∀ s ∈ steps.dropLast, FilePath.isStepTooLong s = false)
        ∧ q = steps.dropLast.foldl Place.step here ∧ last = steps.getLastD "." := by
  induction steps generalizing here with
  | nil =>
    rw [lead_nil, arrive_eq_ok_iff]
    simp
  | cons s steps ih =>
    cases steps with
    | nil =>
      rw [ht.lead_singleton, arrive_eq_ok_iff]
      simp
    | cons s' steps =>
      rw [ht.lead_cons_cons, List.dropLast_cons_cons, Place.along, List.forall_mem_cons,
        List.forall_mem_cons, List.foldl_cons]
      constructor
      · intro h
        cases henter : t.enter here s with
        | error e => rw [henter] at h; cases h
        | ok there =>
          obtain ⟨hhere, hlong, rfl⟩ := of_enter henter
          rw [henter] at h
          obtain ⟨hdirs, hlongs, hq, hlast⟩ := ih.1 h
          exact ⟨⟨hhere, hdirs⟩, ⟨hlong, hlongs⟩, hq, hlast⟩
      · rintro ⟨⟨hhere, hdirs⟩, ⟨hlong, hlongs⟩, hq, hlast⟩
        rw [enter_of_directory hhere hlong (hdirs _ (Place.mem_along_self _ _))]
        exact ih.2 ⟨hdirs, hlongs, hq, hlast⟩

theorem enter_congr (hhere : t.get? here = u.get? here)
    (hthere : t.get? (Place.step here s) = u.get? (Place.step here s)) :
    t.enter here s = u.enter here s := by
  unfold enter isDirectoryAt
  rw [hhere]
  by_cases hdot : s = "."
  · simp [hdot]
  by_cases hdots : s = ".."
  · simp [hdots]
  · rw [Place.step, if_neg hdot, if_neg hdots] at hthere
    rw [hthere]

/-- Where a path leads only depends on what stands at the places on the way. -/
theorem Plain.lead_congr (ht : t.Plain) (hu : u.Plain) {follow follow' : Bool} {links links' : Nat}
    (h : ∀ r ∈ Place.along here steps.dropLast, t.get? r = u.get? r) :
    t.lead follow links here steps = u.lead follow' links' here steps := by
  induction steps generalizing here with
  | nil =>
    rw [lead_nil, lead_nil, isDirectoryAt, isDirectoryAt, h here (List.mem_singleton_self here)]
  | cons s steps ih =>
    cases steps with
    | nil =>
      rw [ht.lead_singleton, hu.lead_singleton, isDirectoryAt, isDirectoryAt,
        h here (List.mem_singleton_self here)]
    | cons s' steps =>
      rw [List.dropLast_cons_cons, Place.along, List.forall_mem_cons] at h
      rw [ht.lead_cons_cons, hu.lead_cons_cons,
        enter_congr h.1 (h.2 _ (Place.mem_along_self _ _))]
      cases henter : u.enter here s with
      | error e => rfl
      | ok there =>
        obtain ⟨-, -, rfl⟩ := of_enter henter
        exact ih h.2

theorem start_eq_ok (h : start p = .ok q) : q = p.origin := by
  unfold start at h
  unfold FilePath.origin
  split_ifs at h <;> simp_all

theorem Plain.approach_eq_ok_iff (ht : t.Plain) {follow : Bool} :
    t.approach follow p = .ok (q, last)
      ↔ start p = .ok p.origin ∧ (∀ r ∈ p.passed, t.isDirectoryAt r = true)
        ∧ (∀ s ∈ p.steps.dropLast, FilePath.isStepTooLong s = false)
        ∧ q = p.parent ∧ last = p.lastStep := by
  unfold approach
  cases hstart : start p with
  | error e =>
    constructor
    · rintro ⟨⟩
    · rintro ⟨h, -⟩
      cases h
  | ok here =>
    cases start_eq_ok hstart
    refine ht.lead_eq_ok_iff.trans ?_
    simp only [true_and]
    rfl

theorem Plain.approach_congr (ht : t.Plain) (hu : u.Plain) (follow follow' : Bool)
    (h : ∀ r ∈ p.passed, t.get? r = u.get? r) :
    t.approach follow p = u.approach follow' p := by
  unfold approach
  cases hstart : start p with
  | error e => rfl
  | ok here =>
    cases start_eq_ok hstart
    exact ht.lead_congr hu h

theorem find_of_approach {follow : Bool} (h : t.approach follow p = .ok (here, last)) :
    t.find follow p = t.enter here last >>= fun place =>
      match t.get? place with
      | none => .error .notFound
      | some .directory => .ok (place, .directory)
      | some n => if p.endsInSlash then .error .notDirectory else .ok (place, n) := by
  rw [find, h]
  rfl

theorem Plain.find_congr (ht : t.Plain) (hu : u.Plain) (follow : Bool)
    (h : ∀ r ∈ p.places, t.get? r = u.get? r) : t.find follow p = u.find follow p := by
  have hpassed : ∀ r ∈ p.passed, t.get? r = u.get? r := fun r hr => h r (p.passed_subset_places hr)
  have hplace : t.get? p.place = u.get? p.place := h _ p.place_mem_places
  have henter : t.enter p.parent p.lastStep = u.enter p.parent p.lastStep := by
    refine enter_congr (hpassed _ p.parent_mem_passed) ?_
    rw [p.step_parent, hplace]
  have happroach := ht.approach_congr hu follow follow hpassed
  cases harrived : u.approach follow p with
  | error e =>
    rw [find, find, happroach, harrived]
    rfl
  | ok arrived =>
    obtain ⟨-, -, -, hparent, hlast⟩ := hu.approach_eq_ok_iff.1 harrived
    rw [harrived] at happroach
    rw [find_of_approach happroach, find_of_approach harrived, hparent, hlast, henter]
    cases hentered : u.enter p.parent p.lastStep with
    | error e => rfl
    | ok place =>
      obtain ⟨-, -, rfl⟩ := of_enter hentered
      dsimp only [bind, Except.bind]
      rw [p.step_parent, hplace]

/-- A file could stand at the path. -/
structure Leads (t : Tree) (p : FilePath) : Prop where
  start : start p = .ok p.origin
  directories : ∀ r ∈ p.passed, t.isDirectoryAt r = true
  short : ∀ s ∈ p.steps, FilePath.isStepTooLong s = false
  named : isDots p.lastStep = false

theorem Leads.mono (h : t.Leads p)
    (hdirs : ∀ r, t.isDirectoryAt r = true → u.isDirectoryAt r = true) : u.Leads p :=
  ⟨h.start, fun r hr => hdirs r (h.directories r hr), h.short, h.named⟩

theorem Leads.isStepTooLong (h : t.Leads p) : FilePath.isStepTooLong p.lastStep = false := by
  have hdot : p.lastStep ≠ "." := by
    intro hdot
    have hnamed := h.named
    rw [hdot] at hnamed
    cases hnamed
  refine h.short _ ?_
  rw [FilePath.steps_eq hdot]
  exact List.mem_append_right _ (List.mem_singleton_self _)

theorem Leads.approach_eq (h : t.Leads p) (ht : t.Plain) (follow : Bool) :
    t.approach follow p = .ok (p.parent, p.lastStep) :=
  ht.approach_eq_ok_iff.2
    ⟨h.start, h.directories, fun s hs => h.short s (List.dropLast_subset _ hs), rfl, rfl⟩

theorem Plain.leads_of_approach (ht : t.Plain) {follow : Bool}
    (h : t.approach follow p = .ok (here, last)) (hdots : isDots last = false)
    (hlong : FilePath.isStepTooLong last = false) :
    t.Leads p ∧ here ++ [last] = p.place := by
  obtain ⟨hstart, hdirs, hshort, rfl, rfl⟩ := ht.approach_eq_ok_iff.1 h
  refine ⟨⟨hstart, hdirs, ?_, hdots⟩, (FilePath.place_eq hdots).symm⟩
  rw [FilePath.steps_eq (ne_of_beq_false (Bool.or_eq_false_iff.1 hdots).1), List.forall_mem_append]
  exact ⟨hshort, List.forall_mem_singleton.2 hlong⟩

theorem newPlace_of_approach {follow : Bool} (h : t.approach follow p = .ok (here, last)) :
    t.newPlace follow p = if isDots last then .error .alreadyExists
      else if FilePath.isStepTooLong last then .error .nameTooLong else .ok (here ++ [last]) := by
  rw [newPlace, h]
  rfl

theorem Plain.newPlace_eq_ok_iff (ht : t.Plain) {follow : Bool} :
    t.newPlace follow p = .ok q ↔ t.Leads p ∧ q = p.place := by
  constructor
  · intro h
    cases happroach : t.approach follow p with
    | error e =>
      rw [newPlace, happroach] at h
      cases h
    | ok arrived =>
      rw [newPlace_of_approach happroach] at h
      split_ifs at h with hdots hlong
      cases h
      obtain ⟨hleads, hplace⟩ := ht.leads_of_approach happroach (by simpa using hdots)
        (by simpa using hlong)
      exact ⟨hleads, hplace⟩
  · rintro ⟨h, rfl⟩
    rw [newPlace_of_approach (h.approach_eq ht follow), h.named, h.isStepTooLong,
      FilePath.place_eq h.named]
    rfl

end Lead

section Operations

variable {c : ByteArray} {t' : Tree}

/-- A tree with a file written at all names of a place. -/
def overwrite (t : Tree) (q : Place) (c : ByteArray) : Tree :=
  (t.putShared q (.file c)).setChange q now

theorem Plain.replaced_eq_ok_iff (ht : t.Plain) {n : Node} : Node.replaced c (t.get? q) = .ok n
    ↔ t.isDirectoryAt q = false ∧ n = .file c := by
  unfold isDirectoryAt
  cases hq : t.get? q with
  | none => simp [Node.replaced, eq_comm]
  | some old =>
    rcases ht.kinds q old hq with rfl | ⟨c', rfl⟩
    · simp [Node.replaced]
    · simp [Node.replaced, eq_comm]

theorem write_of_approach (h : t.approach true p = .ok (here, last)) :
    t.write p c = if isDots last || p.endsInSlash then .error .isDirectory
      else if FilePath.isStepTooLong last then .error .nameTooLong
      else Node.replaced c (t.get? (here ++ [last])) >>= fun n =>
        .ok ((t.putShared (here ++ [last]) n).setChange (here ++ [last]) now) := by
  rw [write, h]
  rfl

theorem Plain.write_eq_ok_iff (ht : t.Plain) : t.write p c = .ok t'
    ↔ t.Leads p ∧ p.endsInSlash = false ∧ t.isDirectoryAt p.place = false
      ∧ t' = t.overwrite p.place c := by
  constructor
  · intro h
    cases happroach : t.approach true p with
    | error e =>
      rw [write, happroach] at h
      cases h
    | ok arrived =>
      rw [write_of_approach happroach] at h
      split_ifs at h with hdots hlong
      rw [Bool.not_eq_true, Bool.or_eq_false_iff] at hdots
      obtain ⟨hleads, hplace⟩ := ht.leads_of_approach happroach hdots.1 (by simpa using hlong)
      rw [hplace] at h
      cases hn : Node.replaced c (t.get? p.place) with
      | error e =>
        rw [hn] at h
        cases h
      | ok n =>
        obtain ⟨hdir, rfl⟩ := ht.replaced_eq_ok_iff.1 hn
        rw [hn] at h
        cases h
        exact ⟨hleads, hdots.2, hdir, rfl⟩
  · rintro ⟨h, hslash, hdir, rfl⟩
    rw [write_of_approach (h.approach_eq ht true), h.named, hslash, h.isStepTooLong,
      ← FilePath.place_eq h.named, ht.replaced_eq_ok_iff.2 ⟨hdir, rfl⟩]
    rfl

theorem remove_of_approach (h : t.approach false p = .ok (here, last)) :
    t.remove p = if isDots last then .error .isDirectory
      else if FilePath.isStepTooLong last then .error .nameTooLong
      else match t.get? (here ++ [last]) with
        | none => .error .notFound
        | some .directory => .error .isDirectory
        | some _ =>
          if p.endsInSlash then .error .notDirectory else .ok (t.erase (here ++ [last])) := by
  rw [remove, h]
  rfl

theorem Leads.remove_eq (h : t.Leads p) (ht : t.Plain) : t.remove p =
    match t.get? p.place with
    | none => .error .notFound
    | some .directory => .error .isDirectory
    | some _ => if p.endsInSlash then .error .notDirectory else .ok (t.erase p.place) := by
  rw [remove_of_approach (h.approach_eq ht false), h.named, h.isStepTooLong,
    ← FilePath.place_eq h.named]
  rfl

/-- A removal that does not complain of the last step has come to it, or fails on the way. -/
theorem Plain.leads_of_remove (ht : t.Plain) (hdots : t.remove p ≠ .error .isDirectory)
    (hlong : t.remove p ≠ .error .nameTooLong) : t.Leads p ∨ ∃ e, t.approach true p = .error e := by
  rw [ht.approach_congr ht true false fun _ _ => rfl]
  cases happroach : t.approach false p with
  | error e => exact .inr ⟨e, rfl⟩
  | ok arrived =>
    rw [remove_of_approach happroach] at hdots hlong
    by_cases hlast : isDots arrived.2 = true
    · rw [if_pos hlast] at hdots
      exact absurd rfl hdots
    rw [if_neg hlast] at hlong
    by_cases hlength : FilePath.isStepTooLong arrived.2 = true
    · rw [if_pos hlength] at hlong
      exact absurd rfl hlong
    exact .inl (ht.leads_of_approach happroach (by simpa using hlast) (by simpa using hlength)).1

theorem Plain.remove_eq_ok_iff (ht : t.Plain) : t.remove p = .ok t'
    ↔ t.Leads p ∧ p.endsInSlash = false ∧ (∃ c, t.get? p.place = some (.file c))
      ∧ t' = t.erase p.place := by
  constructor
  · intro h
    rcases ht.leads_of_remove (by rw [h]; exact nofun) (by rw [h]; exact nofun)
      with hleads | ⟨e, he⟩
    · rw [hleads.remove_eq ht] at h
      cases hn : t.get? p.place with
      | none => rw [hn] at h; cases h
      | some n =>
        rcases ht.kinds _ _ hn with rfl | ⟨c, rfl⟩
        · rw [hn] at h; cases h
        · rw [hn] at h
          dsimp only at h
          split_ifs at h with hslash
          cases h
          exact ⟨hleads, by simpa using hslash, ⟨c, rfl⟩, rfl⟩
    · rw [remove, ht.approach_congr ht false true fun _ _ => rfl, he] at h
      cases h
  · rintro ⟨h, hslash, ⟨c, hc⟩, rfl⟩
    rw [h.remove_eq ht, hc, hslash]
    rfl

theorem Leads.find_eq (h : t.Leads p) (ht : t.Plain) (follow : Bool) : t.find follow p =
    match t.get? p.place with
    | none => .error .notFound
    | some .directory => .ok (p.place, .directory)
    | some n => if p.endsInSlash then .error .notDirectory else .ok (p.place, n) := by
  have hparent : t.isDirectoryAt p.parent = true := h.directories _ p.parent_mem_passed
  have hnamed := h.named
  rw [isDots, Bool.or_eq_false_iff] at hnamed
  rw [find_of_approach (h.approach_eq ht follow), enter, hparent, hnamed.1, hnamed.2,
    h.isStepTooLong, ← FilePath.place_eq h.named]
  cases hn : t.get? p.place with
  | none => rfl
  | some n =>
    change (match t.get? p.place with
      | none => _ | some .directory => _ | some n => _) = _
    rw [hn]

/-- A file that stands where a path leads can be read. -/
theorem Leads.read_eq (h : t.Leads p) (ht : t.Plain) (hslash : p.endsInSlash = false)
    (hc : t.get? p.place = some (.file c)) : t.read p = .ok c := by
  rw [read, h.find_eq ht true, hc, hslash]
  rfl

/-- What is not there cannot be read. -/
theorem Leads.read_ne_ok (h : t.Leads p) (ht : t.Plain) (hnone : t.get? p.place = none) :
    t.read p ≠ .ok c := by
  rw [read, h.find_eq ht true, hnone]
  exact nofun

theorem Leads.place_ne_nil (h : t.Leads p) : p.place ≠ [] := by
  rw [FilePath.place_eq h.named]
  exact List.concat_ne_nil _ _

theorem makeDirectory_of_newPlace (h : t.newPlace false (ofDirectory p) = .ok q) :
    t.makeDirectory p = t.add q .directory := by
  rw [makeDirectory, h]
  rfl

theorem place_ofDirectory (p : FilePath) : (ofDirectory p).place = p.place := by
  rw [FilePath.place, FilePath.place, FilePath.steps_ofDirectory, FilePath.origin_ofDirectory]

/-- A directory is made where nothing stands, and takes no other's place. -/
theorem Plain.makeDirectory_eq_ok_iff (ht : t.Plain) : t.makeDirectory p = .ok t'
    ↔ t.Leads (ofDirectory p) ∧ t.get? p.place = none
      ∧ t' = (t.put p.place .directory).setChange p.place now := by
  constructor
  · intro h
    cases hplace : t.newPlace false (ofDirectory p) with
    | error e =>
      rw [makeDirectory, hplace] at h
      cases h
    | ok q =>
      obtain ⟨hleads, rfl⟩ := ht.newPlace_eq_ok_iff.1 hplace
      rw [makeDirectory_of_newPlace hplace, place_ofDirectory, add] at h
      split_ifs at h with hsome
      cases h
      exact ⟨hleads, by simpa using hsome, rfl⟩
  · rintro ⟨hleads, hnone, rfl⟩
    rw [makeDirectory_of_newPlace (ht.newPlace_eq_ok_iff.2 ⟨hleads, rfl⟩), place_ofDirectory, add,
      hnone]
    rfl

theorem Plain.of_makeDirectory (ht : t.Plain) (h : t.makeDirectory p = .ok t') :
    p.place ≠ [] ∧ t.get? p.place = none
      ∧ t' = (t.put p.place .directory).setChange p.place now := by
  obtain ⟨hleads, hnone, rfl⟩ := ht.makeDirectory_eq_ok_iff.1 h
  exact ⟨place_ofDirectory p ▸ hleads.place_ne_nil, hnone, rfl⟩

end Operations

section Names

theorem namesOf_cases (t : Tree) (q : Place) :
    t.namesOf q = [q] ∨ t.namesOf q ∈ t.shared ∧ q ∈ t.namesOf q := by
  unfold namesOf
  cases h : t.shared.find? (·.contains q) with
  | none => exact .inl rfl
  | some group =>
    exact .inr ⟨List.mem_of_find?_eq_some h, by simpa using List.find?_some h⟩

theorem mem_namesOf_self (t : Tree) (q : Place) : q ∈ t.namesOf q := by
  rcases namesOf_cases t q with h | h
  · rw [h]
    exact List.mem_singleton_self q
  · exact h.2

/-- Only files have names that are not their own place. -/
theorem Plain.file_of_mem_namesOf (ht : t.Plain) (h : r ∈ t.namesOf q) (hne : r ≠ q) :
    ∃ c, t.get? r = some (.file c) := by
  rcases namesOf_cases t q with hq | hq
  · rw [hq, List.mem_singleton] at h
    exact absurd h hne
  · exact ht.names _ hq.1 r h

theorem Plain.namesOf_of_none (ht : t.Plain) (h : t.get? q = none) : t.namesOf q = [q] := by
  rcases namesOf_cases t q with hq | hq
  · exact hq
  · obtain ⟨c, hc⟩ := ht.names _ hq.1 q hq.2
    rw [h] at hc
    cases hc

theorem namesOf_of_shared (h : t.shared = u.shared) (q : Place) : t.namesOf q = u.namesOf q := by
  rw [namesOf, namesOf, h]

/-- A name that is removed is no other file's, and every file keeps its other names. -/
theorem namesOf_erase (t : Tree) (q r : Place) :
    (t.erase q).namesOf r = if r = q then [r] else (t.namesOf r).filter (· != q) := by
  split
  · next hr =>
    rcases namesOf_cases (t.erase q) r with hone | ⟨hgroup, hself⟩
    · exact hone
    · obtain ⟨group, -, hfilter⟩ := List.mem_map.1 hgroup
      rw [← hfilter, List.mem_filter, hr] at hself
      simp at hself
  · next hr =>
    have hsame : (List.contains · r) ∘ (List.filter (· != q)) = (List.contains · r) := by
      funext group
      simp [hr]
    unfold namesOf erase
    rw [List.find?_map, hsame]
    cases t.shared.find? (·.contains r) with
    | none => simp [hr]
    | some group => rfl

theorem mem_of_mem_namesOf_erase (h : r ∈ (t.erase q).namesOf here) : r ∈ t.namesOf here := by
  rw [namesOf_erase] at h
  split at h
  · rw [List.mem_singleton.1 h]
    exact mem_namesOf_self t here
  · exact (List.mem_filter.1 h).1

end Names

section Effects

variable {c : ByteArray}

theorem get?_foldl_put (names : List Place) (n : Node) (t : Tree) (hr : r ≠ []) :
    (names.foldl (fun t q => t.put q n) t).get? r = if r ∈ names then some n else t.get? r := by
  induction names generalizing t with
  | nil => simp
  | cons q names ih =>
    rw [List.foldl_cons, ih, get?_put t n hr]
    by_cases hmem : r ∈ names
    · simp [hmem]
    · by_cases hq : r = q <;> simp [hmem, hq]

theorem shared_foldl_put (names : List Place) (n : Node) (t : Tree) :
    (names.foldl (fun t q => t.put q n) t).shared = t.shared := by
  induction names generalizing t with
  | nil => rfl
  | cons q names ih => exact ih (t.put q n)

/-- What is put at a place stands at all names of it, and nowhere else. -/
theorem get?_written (t : Tree) (q : Place) (n : Node) (hr : r ≠ []) :
    ((t.putShared q n).setChange q now).get? r
      = if r ∈ t.namesOf q then some n else t.get? r := by
  have hput := get?_foldl_put (t.namesOf q) n t hr
  cases r with
  | nil => exact absurd rfl hr
  | cons s steps => exact hput

/-- A file that is written keeps its names. -/
theorem shared_overwrite (t : Tree) (q : Place) (c : ByteArray) :
    (t.overwrite q c).shared = t.shared :=
  shared_foldl_put _ _ t

theorem Plain.get?_overwrite (ht : t.Plain) (hq : q ≠ []) (c : ByteArray) (r : Place) :
    (t.overwrite q c).get? r = if r ∈ t.namesOf q then some (.file c) else t.get? r := by
  by_cases hr : r = []
  · subst hr
    rw [if_neg]
    · rfl
    · intro hmem
      obtain ⟨c', hc'⟩ := ht.file_of_mem_namesOf hmem hq.symm
      cases hc'
  · exact get?_written t q (.file c) hr

theorem get?_erase_of_ne_nil (hq : q ≠ []) (r : Place) :
    (t.erase q).get? r = if r = q then none else t.get? r := by
  by_cases hr : r = []
  · rw [hr, if_neg hq.symm]
    rfl
  · exact get?_erase t hr

theorem get?_made (hq : q ≠ []) (r : Place) :
    ((t.put q .directory).setChange q now).get? r
      = if r = q then some .directory else t.get? r := by
  cases r with
  | nil => rw [if_neg hq.symm]; rfl
  | cons s steps => exact get?_put t .directory (List.cons_ne_nil s steps)

theorem Plain.isDirectoryAt_overwrite (ht : t.Plain) (hq : q ≠ [])
    (hdir : t.isDirectoryAt q = false) (hr : t.isDirectoryAt r = true) :
    (t.overwrite q c).isDirectoryAt r = true := by
  rw [isDirectoryAt_iff] at hr ⊢
  rw [ht.get?_overwrite hq, if_neg, hr]
  intro hmem
  by_cases hrq : r = q
  · rw [hrq, ← isDirectoryAt_iff, hdir] at hr
    cases hr
  · obtain ⟨c', hc'⟩ := ht.file_of_mem_namesOf hmem hrq
    rw [hc'] at hr
    cases hr

theorem isDirectoryAt_erase (hq : q ≠ []) (hfile : t.get? q = some (.file c))
    (hr : t.isDirectoryAt r = true) : (t.erase q).isDirectoryAt r = true := by
  rw [isDirectoryAt_iff] at hr ⊢
  rw [get?_erase_of_ne_nil hq, if_neg, hr]
  rintro rfl
  rw [hfile] at hr
  cases hr

theorem isDirectoryAt_made (hq : q ≠ []) (hr : t.isDirectoryAt r = true) :
    ((t.put q .directory).setChange q now).isDirectoryAt r = true := by
  rw [isDirectoryAt_iff] at hr ⊢
  rw [get?_made hq]
  split
  · rfl
  · exact hr

theorem Plain.overwrite (ht : t.Plain) (hq : q ≠ []) (c : ByteArray) : (t.overwrite q c).Plain where
  kinds r n hr := by
    rw [ht.get?_overwrite hq] at hr
    split_ifs at hr
    · cases hr
      exact .inr ⟨c, rfl⟩
    · exact ht.kinds r n hr
  names group hgroup r hr := by
    rw [shared_overwrite] at hgroup
    rw [ht.get?_overwrite hq]
    split_ifs
    · exact ⟨c, rfl⟩
    · exact ht.names group hgroup r hr

theorem Plain.write (ht : t.Plain) (h : t.write p c = .ok u) : u.Plain := by
  obtain ⟨hleads, -, -, rfl⟩ := ht.write_eq_ok_iff.1 h
  exact ht.overwrite hleads.place_ne_nil c

theorem Plain.erase (ht : t.Plain) (hq : q ≠ []) : (t.erase q).Plain where
  kinds r n hr := by
    rw [get?_erase_of_ne_nil hq] at hr
    split_ifs at hr
    exact ht.kinds r n hr
  names group hgroup r hr := by
    obtain ⟨group', hgroup', rfl⟩ := List.mem_map.1 hgroup
    obtain ⟨hr, hne⟩ := List.mem_filter.1 hr
    rw [get?_erase_of_ne_nil hq, if_neg (by simpa using hne)]
    exact ht.names group' hgroup' r hr

theorem Plain.made (ht : t.Plain) (hq : q ≠ []) (hnone : t.get? q = none) :
    ((t.put q .directory).setChange q now).Plain where
  kinds r n hr := by
    rw [get?_made hq] at hr
    split_ifs at hr
    · exact .inl (Option.some.inj hr).symm
    · exact ht.kinds r n hr
  names group hgroup r hr := by
    obtain ⟨c, hc⟩ := ht.names group hgroup r hr
    rw [get?_made hq, if_neg]
    · exact ⟨c, hc⟩
    · rintro rfl
      rw [hnone] at hc
      cases hc

/-- What was not there to be removed cannot be read. -/
theorem Plain.read_ne_ok (ht : t.Plain) (h : t.remove p = .error .notFound) : t.read p ≠ .ok c := by
  rcases ht.leads_of_remove (by rw [h]; exact nofun) (by rw [h]; exact nofun) with hleads | ⟨e, he⟩
  · refine hleads.read_ne_ok ht ?_
    rw [hleads.remove_eq ht] at h
    cases hn : t.get? p.place with
    | none => rfl
    | some n =>
      rcases ht.kinds _ _ hn with rfl | ⟨c, rfl⟩
      · rw [hn] at h
        cases h
      · rw [hn] at h
        dsimp only at h
        split_ifs at h
        cases h
  · rw [read, find, he]
    exact nofun

end Effects

end ThreeAddress.Files.Tree
