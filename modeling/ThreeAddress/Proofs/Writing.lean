import ThreeAddress.Proofs.Keeping

/-!
# What is written can be read

A write goes to the place that its path leads to, links followed, and so to all names of what
stands there, and to nothing else (`sameBut_of_write`). Other contents of files and more files do
not turn a path away from where it leads (`Refiled.lead_mono`), so the path that was written to
gives what was written (`Coherent.of_write`).
-/

namespace ThreeAddress.Files.Tree

variable {t t' : Tree} {p : FilePath} {c : ByteArray} {q r here : Place} {s last : String}
  {steps : List String} {follow : Bool} {links : Nat} {n : Node}

section Refiled

/-- The second tree has files where the first has files or nothing, and else what the first has. -/
def Refiled (t t' : Tree) : Prop :=
  ∀ r, t'.get? r = t.get? r
    ∨ (∃ c, t'.get? r = some (.file c)) ∧ (t.get? r = none ∨ ∃ c, t.get? r = some (.file c))

theorem Refiled.isDirectoryAt (h : t.Refiled t') (r : Place) :
    t'.isDirectoryAt r = t.isDirectoryAt r := by
  unfold Tree.isDirectoryAt
  rcases h r with heq | ⟨⟨c, hc⟩, hnone | ⟨c', hc'⟩⟩
  · rw [heq]
  · rw [hc, hnone]
  · rw [hc, hc']

theorem Refiled.linkAt? (h : t.Refiled t') (here : Place) (s : String) :
    t'.linkAt? here s = t.linkAt? here s := by
  unfold Tree.linkAt?
  rcases h (here ++ [s]) with heq | ⟨⟨c, hc⟩, hnone | ⟨c', hc'⟩⟩
  · rw [heq]
  · rw [hc, hnone]
  · rw [hc, hc']

theorem Refiled.isSome (h : t.Refiled t') (hr : (t.get? r).isSome = true) :
    (t'.get? r).isSome = true := by
  rcases h r with heq | ⟨⟨c, hc⟩, -⟩
  · rw [heq, hr]
  · rw [hc]
    rfl

theorem Refiled.enter_mono (h : t.Refiled t') (he : t.enter here s = .ok q) :
    t'.enter here s = .ok q := by
  unfold enter at he ⊢
  rw [h.isDirectoryAt]
  split_ifs at he with hhere hdot hdots hlong hsome
  · simp_all
  · simp_all
  · have := h.isSome hsome
    simp_all

/-- What can be looked up stays where it is. -/
theorem Refiled.lead_mono (h : t.Refiled t') {x : Place × String}
    (hl : t.lead follow links here steps = .ok x) : t'.lead follow links here steps = .ok x := by
  fun_induction lead t follow links here steps with
  | case1 links here hhere => rw [lead_nil, h.isDirectoryAt, if_pos hhere, hl]
  | case2 => cases hl
  | case3 => cases hl
  | case4 here s steps target hlink links ih =>
    rw [dite_eq_ite, ← h.linkAt?] at hlink
    rw [lead, hlink]
    exact ih hl
  | case5 links here s steps hlink hlast hhere =>
    rw [dite_eq_ite, ← h.linkAt?] at hlink
    rw [lead, hlink]
    dsimp only
    rw [if_pos hlast, h.isDirectoryAt, if_pos hhere, hl]
  | case6 => cases hl
  | case7 links here s steps hlink hlast ih =>
    rw [dite_eq_ite, ← h.linkAt?] at hlink
    rw [lead, hlink]
    dsimp only
    rw [if_neg hlast]
    cases henter : t.enter here s with
    | error e =>
      rw [henter] at hl
      cases hl
    | ok there =>
      rw [henter] at hl
      rw [h.enter_mono henter]
      exact ih there hl

theorem isDirectoryAt_of_lead (h : t.lead follow links here steps = .ok (q, last)) :
    t.isDirectoryAt q = true := by
  fun_induction lead t follow links here steps with
  | case1 links here hhere =>
    cases h
    exact hhere
  | case4 here s steps target hlink links ih => exact ih h
  | case5 links here s steps hlink hlast hhere =>
    cases h
    exact hhere
  | case7 links here s steps hlink hlast ih =>
    cases henter : t.enter here s with
    | error e =>
      rw [henter] at h
      cases h
    | ok there =>
      rw [henter] at h
      exact ih there h
  | case2 | case3 | case6 => cases h

theorem lead_of_approach {x : Place × String} (h : t.approach follow p = .ok x) :
    ∃ here, start p = .ok here
      ∧ t.lead (follow || p.endsInSlash) maxLinks here p.steps = .ok x := by
  unfold approach at h
  cases hstart : start p with
  | error e =>
    rw [hstart] at h
    cases h
  | ok here =>
    rw [hstart] at h
    exact ⟨here, rfl, h⟩

theorem Refiled.approach_mono (h : t.Refiled t') {x : Place × String}
    (ha : t.approach follow p = .ok x) : t'.approach follow p = .ok x := by
  obtain ⟨here, hstart, hlead⟩ := lead_of_approach ha
  rw [approach, hstart]
  exact h.lead_mono hlead

end Refiled

section Write

theorem of_write (h : t.write p c = .ok t') : ∃ here last n,
    t.approach true p = .ok (here, last) ∧ isDots last = false
      ∧ FilePath.isStepTooLong last = false ∧ p.endsInSlash = false
      ∧ Node.replaced c (t.get? (here ++ [last])) = .ok n
      ∧ t' = (t.putShared (here ++ [last]) n).setChange (here ++ [last]) now := by
  cases happroach : t.approach true p with
  | error e =>
    rw [write, happroach] at h
    cases h
  | ok arrived =>
    obtain ⟨here, last⟩ := arrived
    rw [write_of_approach happroach] at h
    split_ifs at h with hdots hlong
    rw [Bool.not_eq_true, Bool.or_eq_false_iff] at hdots
    cases hn : Node.replaced c (t.get? (here ++ [last])) with
    | error e =>
      rw [hn] at h
      cases h
    | ok n =>
      rw [hn] at h
      cases h
      exact ⟨here, last, n, rfl, hdots.1, by simpa using hlong, hdots.2, hn, rfl⟩

/-- A write replaces what a file holds, makes a file, or leaves it to a device. -/
theorem replaced_cases {old : Option Node} (h : Node.replaced c old = .ok n) :
    (∃ d, old = some (.device d)) ∨ n = .file c ∧ (old = none ∨ ∃ c', old = some (.file c')) := by
  cases old with
  | none =>
    cases h
    exact .inr ⟨rfl, .inl rfl⟩
  | some old =>
    cases old with
    | file c' =>
      cases h
      exact .inr ⟨rfl, .inr ⟨c', rfl⟩⟩
    | device d => exact .inl ⟨d, rfl⟩
    | directory | link target => cases h

/-- The trees differ at most at the names of what stands at the place. -/
structure SameBut (q : Place) (t t' : Tree) : Prop where
  nodes : ∀ r, r ∉ t.namesOf q → t'.get? r = t.get? r
  times : ∀ r, r ∉ t.namesOf q → t'.changeOf r = t.changeOf r
  names : ∀ r, t'.namesOf r = t.namesOf r

theorem lookup_filter_key {α : Type} (keep : Place → Bool) (hr : keep r = true)
    (entries : List (Place × α)) :
    (entries.filter fun e => keep e.1).lookup r = entries.lookup r := by
  induction entries with
  | nil => rfl
  | cons e entries ih =>
    obtain ⟨q, a⟩ := e
    by_cases hq : keep q = true
    · rw [List.filter_cons, if_pos hq, List.lookup_cons, List.lookup_cons, ih]
    · have hne : r ≠ q := fun h => hq (h ▸ hr)
      rw [List.filter_cons, if_neg hq, ih, List.lookup_cons, beq_false_of_ne hne]

theorem changeOf_setChange (t : Tree) (time : Nat) (hr : r ∉ t.namesOf q) :
    (t.setChange q time).changeOf r = t.changeOf r := by
  have hnone : ((t.namesOf q).map (·, time)).lookup r = none := by
    rw [List.lookup_eq_none_iff]
    rintro e he
    obtain ⟨name, hname, rfl⟩ := List.mem_map.1 he
    exact bne_iff_ne.2 fun h => hr (h ▸ hname)
  have hkeep : (!(t.namesOf q).contains r) = true := by simpa using hr
  rw [changeOf, setChange, List.lookup_append, hnone, Option.none_or]
  exact congrArg (·.getD 0)
    (lookup_filter_key (fun name => !(t.namesOf q).contains name) hkeep t.changes)

theorem changes_foldl_put (names : List Place) (n : Node) (t : Tree) :
    (names.foldl (fun t q => t.put q n) t).changes = t.changes := by
  induction names generalizing t with
  | nil => rfl
  | cons q names ih => exact ih (t.put q n)

theorem sameBut_written (t : Tree) (q : Place) (n : Node) :
    t.SameBut q ((t.putShared q n).setChange q now) := by
  have hnames : ∀ r, (t.putShared q n).namesOf r = t.namesOf r :=
    namesOf_of_shared (shared_foldl_put _ n t)
  refine ⟨fun r hr => ?_, fun r hr => ?_, hnames⟩
  · cases r with
    | nil => rfl
    | cons s steps => rw [get?_written t q n (List.cons_ne_nil s steps), if_neg hr]
  · rw [changeOf_setChange _ now (by rwa [hnames]), changeOf, changeOf, putShared,
      changes_foldl_put]

theorem sameBut_of_write (h : t.write p c = .ok t') :
    ∃ q, t.newPlace true p = .ok q ∧ SameBut q t t' := by
  obtain ⟨here, last, n, happroach, hdots, hlong, -, -, rfl⟩ := of_write h
  refine ⟨here ++ [last], ?_, sameBut_written t _ n⟩
  rw [newPlace_of_approach happroach, hdots, hlong]
  rfl

/-- What is no device is a file afterwards, and was one before if there was anything. -/
theorem of_write_of_not_device (h : t.write p c = .ok t') (hq : t.newPlace true p = .ok q)
    (hdevice : ∀ d, t.get? q ≠ some (.device d)) : ∃ here last,
    t.approach true p = .ok (here, last) ∧ isDots last = false
      ∧ FilePath.isStepTooLong last = false ∧ p.endsInSlash = false
      ∧ (t.get? q = none ∨ ∃ c', t.get? q = some (.file c'))
      ∧ q = here ++ [last] ∧ t' = t.overwrite q c := by
  obtain ⟨here, last, n, happroach, hdots, hlong, hslash, hn, rfl⟩ := of_write h
  rw [newPlace_of_approach happroach, hdots, hlong] at hq
  cases hq
  rcases replaced_cases hn with ⟨d, hd⟩ | ⟨rfl, hold⟩
  · exact absurd hd (hdevice d)
  · exact ⟨here, last, happroach, hdots, hlong, hslash, hold, rfl, rfl⟩

theorem get?_of_write (h : t.write p c = .ok t') (hq : t.newPlace true p = .ok q)
    (hdevice : ∀ d, t.get? q ≠ some (.device d)) : t'.get? q = some (.file c) := by
  obtain ⟨here, last, -, -, -, -, -, rfl, rfl⟩ := of_write_of_not_device h hq hdevice
  rw [overwrite, get?_written t _ _ (List.concat_ne_nil _ _), if_pos (mem_namesOf_self t _)]

end Write

section Coherent

/-- All names of one thing hold it, and it is no directory. -/
def Coherent (t : Tree) : Prop :=
  ∀ group ∈ t.shared, ∃ n, n ≠ .directory ∧ ∀ q ∈ group, t.get? q = some n

theorem Coherent.get?_name (ht : t.Coherent) (h : r ∈ t.namesOf q) : t.get? r = t.get? q := by
  rcases namesOf_cases t q with hq | ⟨hgroup, hself⟩
  · rw [hq, List.mem_singleton] at h
    rw [h]
  · obtain ⟨n, -, hn⟩ := ht _ hgroup
    rw [hn r h, hn q hself]

theorem Coherent.name_ne_nil (ht : t.Coherent) (hq : q ≠ []) (h : r ∈ t.namesOf q) : r ≠ [] := by
  rcases namesOf_cases t q with hone | ⟨hgroup, -⟩
  · rw [hone, List.mem_singleton] at h
    rwa [h]
  · obtain ⟨n, hne, hn⟩ := ht _ hgroup
    rintro rfl
    exact hne (Option.some.inj (hn [] h)).symm

/-- The file is read under all its names afterwards, and under the path. -/
theorem Coherent.of_write (ht : t.Coherent) (h : t.write p c = .ok t')
    (hq : t.newPlace true p = .ok q) (hdevice : ∀ d, t.get? q ≠ some (.device d)) :
    (∀ r ∈ t.namesOf q, t'.get? r = some (.file c)) ∧ t'.read p = .ok c := by
  obtain ⟨here, last, happroach, hdots, hlong, hslash, hold, rfl, rfl⟩ :=
    of_write_of_not_device h hq hdevice
  have hne : here ++ [last] ≠ [] := List.concat_ne_nil _ _
  have hnames : ∀ r ∈ t.namesOf (here ++ [last]),
      (t.overwrite (here ++ [last]) c).get? r = some (.file c) := fun r hr => by
    rw [overwrite, get?_written t _ _ (ht.name_ne_nil hne hr), if_pos hr]
  have hrefiled : t.Refiled (t.overwrite (here ++ [last]) c) := fun r => by
    by_cases hr : r ∈ t.namesOf (here ++ [last])
    · rw [ht.get?_name hr]
      exact .inr ⟨⟨c, hnames r hr⟩, hold⟩
    · exact .inl ((sameBut_written t _ _).nodes r hr)
  refine ⟨hnames, ?_⟩
  obtain ⟨start, -, hlead⟩ := lead_of_approach happroach
  have henter : (t.overwrite (here ++ [last]) c).enter here last = .ok (here ++ [last]) := by
    rw [isDots, Bool.or_eq_false_iff] at hdots
    rw [enter, hrefiled.isDirectoryAt, isDirectoryAt_of_lead hlead, hdots.1, hdots.2, hlong,
      hnames _ (mem_namesOf_self t _)]
    rfl
  rw [read, find_of_approach (hrefiled.approach_mono happroach), henter]
  dsimp only [bind, Except.bind]
  rw [hnames _ (mem_namesOf_self t _), hslash]
  rfl

end Coherent

end ThreeAddress.Files.Tree
