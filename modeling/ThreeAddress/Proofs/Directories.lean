import ThreeAddress.Proofs.Sparing

/-!
# Making directories

A directory that cannot be made at once is made after the ones above it, which are tried from the
innermost outwards. In a tree without links and devices this comes to going along the path from
where it starts, into the directories that are there and into new ones where there is nothing
(`makeDirectories_eq_ok_iff`): nothing is found beyond the first one that is to be made
(`reachAll_cases`), and what the others are made from is not changed by asking for them.
-/

namespace ThreeAddress.Files

namespace FilePath

open List (Sublist)

variable {p : FilePath} {steps : List String} {s : String} {cs : List Char}

section Shorter

theorem sublist_intercalate {l l' : List (List Char)} (h : l.Sublist l') :
    (['/'].intercalate l).Sublist (['/'].intercalate l') := by
  induction h with
  | slnil => exact Sublist.refl _
  | @cons l l' x h ih =>
    refine ih.trans ?_
    cases l' with
    | nil => exact List.nil_sublist _
    | cons y l' =>
      rw [List.intercalate_cons_cons]
      exact List.sublist_append_right _ _
  | @cons_cons l l' x h ih =>
    cases l with
    | nil =>
      rw [List.intercalate_singleton]
      cases l' with
      | nil => rw [List.intercalate_singleton]
      | cons y l' =>
        rw [List.intercalate_cons_cons, List.append_assoc]
        exact List.sublist_append_left _ _
    | cons y l =>
      cases l' with
      | nil => cases h
      | cons y' l' =>
        rw [List.intercalate_cons_cons, List.intercalate_cons_cons]
        exact ih.append_left _

/-- Steps that are left out make a text shorter. -/
theorem sublist_of_sublist_stepsOf (h : steps.Sublist (stepsOf cs)) :
    (String.intercalate "/" steps).toList.Sublist cs := by
  have hpieces : ((stepsOf cs).map String.toList).Sublist (cs.splitOn '/') := by
    rw [stepsOf, List.map_map]
    simp
  have hsub := sublist_intercalate ((h.map String.toList).trans hpieces)
  rw [List.intercalate_splitOn] at hsub
  rwa [String.toList_intercalate]

theorem sublist_ofSteps (h : steps.Sublist p.steps) :
    (ofSteps p.isAbsolute steps).text.toList.Sublist p.text.toList := by
  cases habs : p.isAbsolute with
  | false =>
    rw [ofSteps, if_neg (by simp), String.empty_append]
    exact sublist_of_sublist_stepsOf h
  | true =>
    rw [isAbsolute] at habs
    change steps.Sublist (stepsOf p.text.toList) at h
    obtain ⟨cs, hcs⟩ : ∃ cs, p.text.toList = '/' :: cs := by
      cases htext : p.text.toList with
      | nil => rw [htext] at habs; cases habs
      | cons c cs =>
        rw [htext] at habs
        exact ⟨cs, by rw [Option.some.inj (eq_of_beq habs)]⟩
    rw [ofSteps, if_pos rfl, String.toList_append]
    rw [hcs] at h ⊢
    rw [show '/' :: cs = [] ++ '/' :: cs from rfl, stepsOf_append_slash, stepsOf_nil,
      List.nil_append] at h
    exact (sublist_of_sublist_stepsOf h).cons_cons '/'

theorem utf8ByteSize_le_of_sublist {l l' : List Char} (h : l.Sublist l') :
    (String.ofList l).utf8ByteSize ≤ (String.ofList l').utf8ByteSize := by
  induction h with
  | slnil => exact Nat.le_refl _
  | cons c h ih =>
    rw [String.ofList_cons, String.utf8ByteSize_append]
    exact ih.trans (Nat.le_add_left _ _)
  | cons_cons c h ih =>
    rw [String.ofList_cons, String.ofList_cons, String.utf8ByteSize_append,
      String.utf8ByteSize_append]
    exact Nat.add_le_add_left ih _

end Shorter

section Above

/-- The paths of fewer and fewer of some steps. -/
def aboveSteps (absolute : Bool) (steps : List String) : List FilePath :=
  (List.range steps.length).reverse.map fun n => ofSteps absolute (steps.take n)

theorem aboveSteps_concat (absolute : Bool) (steps : List String) (s : String) :
    aboveSteps absolute (steps ++ [s]) = ofSteps absolute steps :: aboveSteps absolute steps := by
  rw [aboveSteps, List.length_append, List.length_singleton, List.range_succ, List.reverse_append,
    List.reverse_singleton, List.singleton_append, List.map_cons, List.take_left, aboveSteps]
  refine congrArg (_ :: ·) (List.map_congr_left fun n hn => ?_)
  rw [List.mem_reverse, List.mem_range] at hn
  rw [List.take_append_of_le_length hn.le]

theorem filter_plainSteps (p : FilePath) :
    p.plainSteps.filter (· ≠ ".") = p.steps.filter (· ≠ ".") := by
  unfold plainSteps
  split
  · next h => rw [h]
  · next first rest h =>
    rw [h]
    dsimp only
    split
    · next hdot =>
      rw [List.filter_filter, List.filter_cons_of_neg (by simp_all)]
      simp
    · rw [List.filter_cons, List.filter_cons, List.filter_filter]
      simp

/-- Only a first step stays where it is. -/
theorem not_mem_tail_plainSteps (p : FilePath) : "." ∉ p.plainSteps.tail := by
  unfold plainSteps
  split
  · exact List.not_mem_nil
  · next first rest h =>
    have hrest : "." ∉ rest.filter (· ≠ ".") := by simp
    dsimp only
    split
    · exact fun hdot => hrest (List.mem_of_mem_tail hdot)
    · exact hrest

/-- The steps above a path are among those that it is approached by, but for the ones that stay
where they are. -/
theorem filter_dropLast_prefix {above : List String} (h : p.plainSteps = above ++ [s]) :
    above.filter (· ≠ ".") <+: p.steps.dropLast.filter (· ≠ ".") := by
  have hplain := filter_plainSteps p
  rcases List.eq_nil_or_concat p.steps with hnil | ⟨steps, last, hsteps⟩
  · have hsub := plainSteps_sublist p
    rw [hnil, List.sublist_nil, h] at hsub
    exact absurd hsub (List.concat_ne_nil _ _)
  · rw [List.concat_eq_append] at hsteps
    rw [h, hsteps, List.filter_append, List.filter_append] at hplain
    rw [hsteps, List.dropLast_concat]
    by_cases hlast : last = "."
    · rw [List.filter_cons_of_neg (a := last) (by simp [hlast]), List.filter_nil, List.append_nil]
        at hplain
      exact ⟨_, hplain⟩
    by_cases hs : s = "."
    · have htail := not_mem_tail_plainSteps p
      cases above with
      | nil => exact List.nil_prefix
      | cons first above =>
        rw [h, hs, List.cons_append, List.tail_cons] at htail
        exact absurd (List.mem_append_right above (List.mem_singleton_self ".")) htail
    · rw [List.filter_cons_of_pos (by simp [hs]), List.filter_cons_of_pos (by simp [hlast]),
        List.filter_nil] at hplain
      exact (List.append_inj' hplain rfl).1 ▸ List.prefix_rfl

end Above

end FilePath

namespace Tree

variable {t t' above : Tree} {p q : FilePath} {here there : Place} {s : String}
  {steps more : List String} {absolute : Bool}

section Reaching

/-- One step on into a directory, which is made if there is nothing. -/
def reach? (t : Tree) (here : Place) (s : String) : Option (Tree × Place) :=
  if !t.isDirectoryAt here || FilePath.isStepTooLong s then none
  else
    let there := Place.step here s
    match t.get? there with
    | some .directory => some (t, there)
    | some _ => none
    | none =>
      if isDots s then none else some ((t.put there .directory).setChange there now, there)

/-- Some steps, each into a directory that is there or is made. -/
def reachAll? (t : Tree) (here : Place) (steps : List String) : Option (Tree × Place) :=
  steps.foldlM (fun reached s => reached.1.reach? reached.2 s) (t, here)

theorem reach?_eq_some_iff : t.reach? here s = some (t', there)
    ↔ t.isDirectoryAt here = true ∧ FilePath.isStepTooLong s = false ∧ there = Place.step here s
      ∧ (t.isDirectoryAt there = true ∧ t' = t
        ∨ isDots s = false ∧ t.get? there = none
          ∧ t' = (t.put there .directory).setChange there now) := by
  unfold reach?
  cases hhere : t.isDirectoryAt here with
  | false => simp
  | true =>
    cases hlong : FilePath.isStepTooLong s with
    | true => simp
    | false =>
      simp only [Bool.not_true, Bool.or_self, Bool.false_eq_true, if_false, true_and,
        isDirectoryAt_iff]
      constructor
      · intro h
        split at h
        · next hdir =>
          cases h
          exact ⟨rfl, .inl ⟨hdir, rfl⟩⟩
        · cases h
        · next hnone =>
          split_ifs at h with hdots
          cases h
          exact ⟨rfl, .inr ⟨by simpa using hdots, hnone, rfl⟩⟩
      · rintro ⟨rfl, ⟨hdir, rfl⟩ | ⟨hdots, hnone, rfl⟩⟩
        · rw [hdir]
        · rw [hnone, hdots]
          rfl

theorem reachAll?_nil (t : Tree) (here : Place) : t.reachAll? here [] = some (t, here) := rfl

theorem reachAll?_cons_eq_some {r : Tree × Place} : t.reachAll? here (s :: steps) = some r
    ↔ ∃ next, t.reach? here s = some next ∧ next.1.reachAll? next.2 steps = some r := by
  rw [reachAll?, List.foldlM_cons]
  exact Option.bind_eq_some_iff

theorem reachAll?_concat_eq_some {r : Tree × Place} : t.reachAll? here (steps ++ [s]) = some r
    ↔ ∃ next, t.reachAll? here steps = some next ∧ next.1.reach? next.2 s = some r := by
  simp only [reachAll?, List.foldlM_append, List.foldlM_cons, List.foldlM_nil, bind_pure]
  exact Option.bind_eq_some_iff

theorem Plain.spares_reach (ht : t.Plain) (h : t.reach? here s = some (t', there)) (o : Place) :
    Spares o t t' := by
  obtain ⟨-, -, rfl, ⟨-, rfl⟩ | ⟨hdots, hnone, rfl⟩⟩ := reach?_eq_some_iff.1 h
  · exact Spares.refl o ht
  · refine Spares.made ht ?_ hnone
    rw [Place.step_of_isDots hdots]
    exact List.concat_ne_nil _ _

theorem Plain.spares_reachAll (ht : t.Plain) (h : t.reachAll? here steps = some (t', there))
    (o : Place) : Spares o t t' := by
  induction steps generalizing t here with
  | nil =>
    cases h
    exact Spares.refl o ht
  | cons s steps ih =>
    obtain ⟨next, hnext, hrest⟩ := reachAll?_cons_eq_some.1 h
    have hspares := ht.spares_reach hnext o
    exact hspares.trans (ih hspares.plain hrest)

theorem eq_of_reachAll (h : t.reachAll? here steps = some (t', there)) :
    there = steps.foldl Place.step here ∧ ∀ s ∈ steps, FilePath.isStepTooLong s = false := by
  induction steps generalizing t here with
  | nil =>
    cases h
    exact ⟨rfl, List.forall_mem_nil _⟩
  | cons s steps ih =>
    obtain ⟨⟨t'', next⟩, hnext, hrest⟩ := reachAll?_cons_eq_some.1 h
    obtain ⟨-, hshort, rfl, -⟩ := reach?_eq_some_iff.1 hnext
    obtain ⟨hthere, hshorts⟩ := ih hrest
    exact ⟨hthere, List.forall_mem_cons.2 ⟨hshort, hshorts⟩⟩

/-- Steps that come to a directory lead through directories only. -/
theorem Plain.directories_of_reachAll (ht : t.Plain)
    (h : t.reachAll? here steps = some (t', there)) (hthere : t'.isDirectoryAt there = true) :
    ∀ r ∈ Place.along here steps, t'.isDirectoryAt r = true := by
  induction steps generalizing t here with
  | nil =>
    cases h
    intro r hr
    rwa [List.mem_singleton.1 hr]
  | cons s steps ih =>
    have hspares := ht.spares_reachAll h here
    obtain ⟨⟨t'', next⟩, hnext, hrest⟩ := reachAll?_cons_eq_some.1 h
    have hplain := (ht.spares_reach hnext here).plain
    obtain ⟨hhere, -, rfl, -⟩ := reach?_eq_some_iff.1 hnext
    exact List.forall_mem_cons.2 ⟨hspares.directories here hhere, ih hplain hrest⟩

theorem reachAll?_of_directories (hdirs : ∀ r ∈ Place.along here steps, t.isDirectoryAt r = true)
    (hshort : ∀ s ∈ steps, FilePath.isStepTooLong s = false) :
    t.reachAll? here steps = some (t, steps.foldl Place.step here) := by
  induction steps generalizing here with
  | nil => rfl
  | cons s steps ih =>
    obtain ⟨hhere, hdirs⟩ := List.forall_mem_cons.1 hdirs
    obtain ⟨hs, hshort⟩ := List.forall_mem_cons.1 hshort
    exact reachAll?_cons_eq_some.2 ⟨(t, Place.step here s), reach?_eq_some_iff.2
      ⟨hhere, hs, rfl, .inl ⟨hdirs _ (Place.mem_along_self _ _), rfl⟩⟩, ih hdirs hshort⟩

theorem enter_of_none (hhere : t.isDirectoryAt here = true)
    (hshort : FilePath.isStepTooLong s = false) (hdots : isDots s = false)
    (hnone : t.get? (Place.step here s) = none) : t.enter here s = .error .notFound := by
  rw [Place.step_of_isDots hdots] at hnone
  rw [isDots, Bool.or_eq_false_iff] at hdots
  rw [enter, hhere, hdots.1, hdots.2, hshort, hnone]
  rfl

theorem Plain.lead_cons (ht : t.Plain) (follow : Bool) (links : Nat) (here : Place) (s : String)
    (h : more ≠ []) : t.lead follow links here (s :: more)
      = t.enter here s >>= fun there => t.lead follow links there more := by
  obtain ⟨s', more, rfl⟩ := List.exists_cons_of_ne_nil h
  exact ht.lead_cons_cons follow links here s s' more

/-- If a directory has to be made on the way then nothing can be found beyond it. -/
theorem Plain.reachAll_cases (ht : t.Plain) (h : t.reachAll? here steps = some (t', there)) :
    t' = t ∨ ∀ follow links more, more ≠ [] →
      t.lead follow links here (steps.filter (· ≠ ".") ++ more) = .error .notFound := by
  induction steps generalizing here with
  | nil =>
    cases h
    exact .inl rfl
  | cons s steps ih =>
    obtain ⟨⟨t'', next⟩, hnext, hrest⟩ := reachAll?_cons_eq_some.1 h
    obtain ⟨hhere, hshort, rfl, ⟨hdir, rfl⟩ | ⟨hdots, hnone, rfl⟩⟩ := reach?_eq_some_iff.1 hnext
    · refine (ih hrest).imp_right fun hlead follow links more hmore => ?_
      by_cases hs : s = "."
      · subst hs
        exact hlead follow links more hmore
      · rw [List.filter_cons_of_pos (by simp [hs]), List.cons_append,
          ht.lead_cons follow links here s (by simp [hmore]), enter_of_directory hhere hshort hdir]
        exact hlead follow links more hmore
    · refine .inr fun follow links more hmore => ?_
      have hs : s ≠ "." := ne_of_beq_false (Bool.or_eq_false_iff.1 hdots).1
      rw [List.filter_cons_of_pos (by simp [hs]), List.cons_append,
        ht.lead_cons follow links here s (by simp [hmore]),
        enter_of_none hhere hshort hdots hnone]
      rfl

theorem Plain.lead_of_not_directory (ht : t.Plain) (follow : Bool) (links : Nat)
    (hhere : t.isDirectoryAt here = false) :
    t.lead follow links here steps = .error .notDirectory := by
  rcases steps with _ | ⟨s, _ | ⟨s', steps⟩⟩
  · rw [lead_nil, hhere]
    rfl
  · rw [ht.lead_singleton, hhere]
    rfl
  · rw [ht.lead_cons_cons, enter, hhere]
    rfl

/-- Steps that stay where they are make no difference on the way. -/
theorem Plain.lead_filter (ht : t.Plain) (follow : Bool) (links : Nat) (here : Place)
    (steps : List String) (h : more ≠ []) : t.lead follow links here (steps ++ more)
      = t.lead follow links here (steps.filter (· ≠ ".") ++ more) := by
  induction steps generalizing here with
  | nil => rfl
  | cons s steps ih =>
    rw [List.cons_append, ht.lead_cons follow links here s (by simp [h])]
    by_cases hs : s = "."
    · subst hs
      rw [List.filter_cons_of_neg (by simp), ← ih here]
      cases hhere : t.isDirectoryAt here with
      | true =>
        rw [enter, hhere]
        rfl
      | false =>
        rw [ht.lead_of_not_directory follow links hhere, enter, hhere]
        rfl
    · rw [List.filter_cons_of_pos (by simp [hs]), List.cons_append,
        ht.lead_cons follow links here s (by simp [h])]
      cases t.enter here s with
      | error e => rfl
      | ok there => exact ih there

end Reaching

section Making

variable {a : FilePath} {rest : List FilePath}

/-- There is a directory at a path, or one is made. -/
def Ensures (t : Tree) (p : FilePath) (t' : Tree) : Prop :=
  t.makeDirectory p = .ok t' ∨ (∃ q, t.find true p = .ok (q, .directory)) ∧ t' = t

/-- Directories are reached or made along a path, but for its own, which is there after that or is
made then. The empty path needs none. -/
def Makes (t : Tree) (p : FilePath) (t' : Tree) : Prop :=
  p.text = "" ∧ t' = t
    ∨ ∃ above here, t.reachAll? p.origin p.plainSteps.dropLast = some (above, here)
      ∧ above.Ensures p t'

theorem forall_places_iff (p : FilePath) : (∀ r ∈ p.places, t.isDirectoryAt r = true)
    ↔ (∀ r ∈ p.passed, t.isDirectoryAt r = true) ∧ t.isDirectoryAt p.place = true := by
  constructor
  · exact fun h => ⟨fun r hr => h r (p.passed_subset_places hr), h _ p.place_mem_places⟩
  · rintro ⟨hpassed, hplace⟩ r hr
    rcases FilePath.mem_places_cases hr with hr | rfl
    · exact hpassed r hr
    · exact hplace

theorem forall_isStepTooLong_iff (p : FilePath) :
    (∀ s ∈ p.steps, FilePath.isStepTooLong s = false)
      ↔ (∀ s ∈ p.steps.dropLast, FilePath.isStepTooLong s = false)
        ∧ FilePath.isStepTooLong p.lastStep = false := by
  rcases List.eq_nil_or_concat p.steps with hnil | ⟨steps, last, hsteps⟩
  · rw [FilePath.lastStep, hnil]
    exact ⟨fun _ => ⟨List.forall_mem_nil _, rfl⟩, fun _ => List.forall_mem_nil _⟩
  · rw [List.concat_eq_append] at hsteps
    rw [FilePath.lastStep, hsteps, List.dropLast_concat, List.getLastD_concat,
      List.forall_mem_append, List.forall_mem_singleton]

theorem Plain.find_directory_iff (ht : t.Plain) : (∃ q, t.find true p = .ok (q, .directory))
    ↔ start p = .ok p.origin ∧ (∀ r ∈ p.places, t.isDirectoryAt r = true)
      ∧ ∀ s ∈ p.steps, FilePath.isStepTooLong s = false := by
  constructor
  · rintro ⟨q, h⟩
    cases happroach : t.approach true p with
    | error e =>
      rw [find, happroach] at h
      cases h
    | ok arrived =>
      obtain ⟨hstart, hpassed, hshort, hparent, hlast⟩ := ht.approach_eq_ok_iff.1 happroach
      rw [find_of_approach happroach, hparent, hlast] at h
      cases henter : t.enter p.parent p.lastStep with
      | error e =>
        rw [henter] at h
        cases h
      | ok place =>
        obtain ⟨-, hlong, rfl⟩ := of_enter henter
        rw [henter, p.step_parent] at h
        refine ⟨hstart, (forall_places_iff p).2 ⟨hpassed, isDirectoryAt_iff.2 ?_⟩,
          (forall_isStepTooLong_iff p).2 ⟨hshort, hlong⟩⟩
        dsimp only [bind, Except.bind] at h
        split at h
        · cases h
        · next hdir => exact hdir
        · split_ifs at h
          cases h
          contradiction
  · rintro ⟨hstart, hplaces, hshort⟩
    obtain ⟨hpassed, hplace⟩ := (forall_places_iff p).1 hplaces
    obtain ⟨hshort, hlong⟩ := (forall_isStepTooLong_iff p).1 hshort
    have happroach : t.approach true p = .ok (p.parent, p.lastStep) :=
      ht.approach_eq_ok_iff.2 ⟨hstart, hpassed, hshort, rfl, rfl⟩
    rw [← p.step_parent] at hplace
    have henter := enter_of_directory (hpassed _ p.parent_mem_passed) hlong hplace
    refine ⟨p.place, ?_⟩
    rw [find_of_approach happroach, henter]
    dsimp only [bind, Except.bind]
    rw [isDirectoryAt_iff.1 hplace, p.step_parent]

theorem isDirectory_run (p : FilePath) (t : Tree) : (isDirectory p : StateM Tree Bool) t
    = (match t.find true p with | .ok (_, .directory) => true | _ => false, t) := by
  have hstatus : (Access.status true p : StateM Tree _) t = (t.status true p, t) := rfl
  have hkind : (kind? p : StateM Tree _) t = ((t.status true p).toOption.map (·.kind), t) :=
    bind_run hstatus
  rw [isDirectory, bind_run hkind, Tree.status]
  rcases t.find true p with e | ⟨q, _ | _ | _ | _⟩ <;> rfl

theorem ensureDirectory_run (p : FilePath) (t : Tree) : (ensureDirectory p : StateM Tree _) t =
    match t.makeDirectory p with
    | .ok made => (.ok (), made)
    | .error e =>
      match t.find true p with
      | .ok (_, .directory) => (.ok (), t)
      | _ => (.error e, t) := by
  have hmake : (Access.makeDirectory p : StateM Tree _) t = match t.makeDirectory p with
      | .ok made => (.ok (), made)
      | .error e => (.error e, t) := rfl
  cases h : t.makeDirectory p with
  | ok made =>
    rw [h] at hmake
    rw [ensureDirectory, bind_run hmake]
    rfl
  | error e =>
    rw [h] at hmake
    rw [ensureDirectory, bind_run hmake]
    dsimp only
    rw [bind_run (isDirectory_run p t)]
    rcases t.find true p with e | ⟨q, _ | _ | _ | _⟩ <;> rfl

theorem start_eq_ok_iff : start p = .ok p.origin
    ↔ '\x00' ∉ p.text.toList ∧ p.text ≠ "" ∧ p.isTooLong = false := by
  unfold start FilePath.origin
  split_ifs <;> simp_all [String.isEmpty_iff]

/-- A path that is shorter can be looked up as well. -/
theorem start_of_sublist (h : start p = .ok p.origin)
    (hsub : q.text.toList.Sublist p.text.toList) (hne : q.text ≠ "") :
    start q = .ok q.origin := by
  obtain ⟨hzero, -, hlength⟩ := start_eq_ok_iff.1 h
  refine start_eq_ok_iff.2 ⟨fun hq => hzero (hsub.subset hq), hne, ?_⟩
  have hsize := FilePath.utf8ByteSize_le_of_sublist hsub
  rw [String.ofList_toList, String.ofList_toList] at hsize
  rw [FilePath.isTooLong, decide_eq_false_iff_not, not_lt] at hlength ⊢
  exact hsize.trans hlength

theorem start_ofDirectory (h : start p = .ok p.origin) :
    start (ofDirectory p) = .ok p.origin := by
  rcases FilePath.text_ofDirectory p with hp | ⟨c, cs, hkept, htext⟩
  · rwa [hp]
  · rw [← FilePath.origin_ofDirectory]
    refine start_of_sublist h ?_ fun hempty => ?_
    · rw [htext, ← hkept]
      exact (List.rdropWhile_prefix _ _).sublist
    · rw [hempty] at htext
      cases htext

theorem leads_ofDirectory_iff : t.Leads (ofDirectory p)
    ↔ start (ofDirectory p) = .ok p.origin ∧ (∀ r ∈ p.passed, t.isDirectoryAt r = true)
      ∧ (∀ s ∈ p.steps, FilePath.isStepTooLong s = false) ∧ isDots p.lastStep = false := by
  have hsteps := FilePath.steps_ofDirectory p
  have horigin := FilePath.origin_ofDirectory p
  have hpassed : (ofDirectory p).passed = p.passed := by
    rw [FilePath.passed, FilePath.passed, hsteps, horigin]
  have hlast : (ofDirectory p).lastStep = p.lastStep := by
    rw [FilePath.lastStep, FilePath.lastStep, hsteps]
  rw [← horigin, ← hpassed, ← hsteps, ← hlast]
  constructor
  · intro h
    exact ⟨h.start, h.directories, h.short, h.named⟩
  · rintro ⟨hstart, hdirs, hshort, hnamed⟩
    exact ⟨hstart, hdirs, hshort, hnamed⟩

/-- What stands at the places of a path tells whether a directory is or can be there. -/
theorem Plain.ensures_iff (ht : t.Plain) : t.Ensures p t'
    ↔ start (ofDirectory p) = .ok p.origin ∧ (∀ r ∈ p.passed, t.isDirectoryAt r = true)
      ∧ (∀ s ∈ p.steps, FilePath.isStepTooLong s = false)
      ∧ (start p = .ok p.origin ∧ t.isDirectoryAt p.place = true ∧ t' = t
        ∨ isDots p.lastStep = false ∧ t.get? p.place = none
          ∧ t' = (t.put p.place .directory).setChange p.place now) := by
  rw [Ensures, ht.makeDirectory_eq_ok_iff, ht.find_directory_iff, leads_ofDirectory_iff,
    forall_places_iff]
  constructor
  · rintro (⟨⟨hstart, hpassed, hshort, hnamed⟩, hnone, rfl⟩
      | ⟨⟨hstart, ⟨hpassed, hplace⟩, hshort⟩, rfl⟩)
    · exact ⟨hstart, hpassed, hshort, .inr ⟨hnamed, hnone, rfl⟩⟩
    · exact ⟨start_ofDirectory hstart, hpassed, hshort, .inl ⟨hstart, hplace, rfl⟩⟩
  · rintro ⟨hstart, hpassed, hshort, ⟨hstart', hplace, rfl⟩ | ⟨hnamed, hnone, rfl⟩⟩
    · exact .inr ⟨⟨hstart', ⟨hpassed, hplace⟩, hshort⟩, rfl⟩
    · exact .inl ⟨⟨hstart, hpassed, hshort, hnamed⟩, hnone, rfl⟩

theorem Plain.ensureDirectory_eq_ok_iff (ht : t.Plain) :
    (ensureDirectory p : StateM Tree _) t = (.ok (), t') ↔ t.Ensures p t' := by
  rw [ensureDirectory_run, Ensures]
  cases hmake : t.makeDirectory p with
  | ok made =>
    obtain ⟨-, hnone, -⟩ := ht.makeDirectory_eq_ok_iff.1 hmake
    constructor
    · rintro ⟨⟩
      exact .inl rfl
    · rintro (⟨⟨⟩⟩ | ⟨hfind, -⟩)
      · rfl
      · obtain ⟨-, hplaces, -⟩ := ht.find_directory_iff.1 hfind
        have hdir := isDirectoryAt_iff.1 (hplaces _ p.place_mem_places)
        rw [hnone] at hdir
        cases hdir
  | error e =>
    constructor
    · intro h
      dsimp only at h
      split at h
      · next q hfind =>
        cases h
        exact .inr ⟨⟨q, hfind⟩, rfl⟩
      · cases h
    · rintro (⟨⟨⟩⟩ | ⟨⟨q, hfind⟩, rfl⟩)
      rw [hfind]

theorem eq_of_ensureDirectory_error {e : Error}
    (h : (ensureDirectory p : StateM Tree _) t = (.error e, t')) : t' = t := by
  rw [ensureDirectory_run] at h
  split at h
  · cases h
  · split at h
    · cases h
    · cases h
      rfl

/-- The last of some steps makes or finds a directory, like the path of the steps. -/
theorem Plain.ensures_ofSteps_iff (ht : t.Plain)
    (hsteps : ∀ r ∈ steps ++ [s], FilePath.IsStep r) (hp : p = .ofSteps absolute (steps ++ [s]))
    (hstart : start p = .ok p.origin)
    (hreach : t.reachAll? p.origin steps = some (above, here)) :
    above.Ensures p t' ↔ ∃ there, above.reach? here s = some (t', there) := by
  have hplain := (ht.spares_reachAll hreach here).plain
  obtain ⟨hhere, hshort⟩ := eq_of_reachAll hreach
  have hps : p.steps = steps ++ [s] := hp ▸ FilePath.steps_ofSteps hsteps
  have hpassed : p.passed = Place.along p.origin steps := by
    rw [FilePath.passed, hps, List.dropLast_concat]
  have hlast : p.lastStep = s := by rw [FilePath.lastStep, hps, List.getLastD_concat]
  have hplace : p.place = Place.step here s := by
    rw [FilePath.place, hps, List.foldl_append, hhere]
    rfl
  rw [hplain.ensures_iff, hpassed, hlast, hplace, hps, List.forall_mem_append,
    List.forall_mem_singleton]
  constructor
  · rintro ⟨-, hdirs, ⟨-, hs⟩, hlast⟩
    have hdir := hdirs here (hhere ▸ Place.foldl_mem_along p.origin steps)
    exact ⟨_, reach?_eq_some_iff.2 ⟨hdir, hs, rfl, hlast.imp_left And.right⟩⟩
  · rintro ⟨there, h⟩
    obtain ⟨hdir, hs, rfl, hlast⟩ := reach?_eq_some_iff.1 h
    exact ⟨start_ofDirectory hstart, ht.directories_of_reachAll hreach hdir, ⟨hshort, hs⟩,
      hlast.imp_left (⟨hstart, ·⟩)⟩

/-- A directory that is there or can be made at once needs no others to be made. -/
theorem Plain.reachAll_of_ensures (ht : t.Plain) (h : t.Ensures p t')
    (hsteps : steps.filter (· ≠ ".") <+: p.steps.dropLast.filter (· ≠ ".")) :
    ∃ here, t.reachAll? p.origin steps = some (t, here) := by
  obtain ⟨-, hpassed, hshort, -⟩ := ht.ensures_iff.1 h
  obtain ⟨more, hmore⟩ := hsteps
  refine ⟨_, reachAll?_of_directories (fun r hr => hpassed r ?_) fun s hs => ?_⟩
  · have hr := Place.subset_along_filter _ _ hr
    have hr := Place.along_append_subset _ _ more hr
    rw [hmore] at hr
    exact Place.along_filter_subset _ _ hr
  · by_cases hdot : s = "."
    · rw [hdot]
      rfl
    · have hs : s ∈ steps.filter (· ≠ ".") := List.mem_filter.2 ⟨hs, by simp [hdot]⟩
      have hs := hmore ▸ List.mem_append_left more hs
      exact hshort s (List.dropLast_subset _ (List.mem_filter.1 hs).1)

/-- Nothing is found at a path before the directories on the way to it are made. -/
theorem Plain.ensureDirectory_eq_notFound (ht : t.Plain)
    (hstart : start (ofDirectory p) = .ok p.origin)
    (hsteps : steps.filter (· ≠ ".") <+: p.steps.dropLast.filter (· ≠ ".")) (hne : p.steps ≠ [])
    (hreach : t.reachAll? p.origin steps = some (above, here)) (habove : above ≠ t) :
    (ensureDirectory p : StateM Tree _) t = (.error .notFound, t) := by
  have hlead : ∀ follow links, t.lead follow links p.origin p.steps = .error .notFound := by
    intro follow links
    obtain ⟨more, hmore⟩ := hsteps
    obtain ⟨last, hlast⟩ : ∃ last, p.steps = p.steps.dropLast ++ [last] :=
      ⟨_, (List.dropLast_append_getLast hne).symm⟩
    rw [hlast, ht.lead_filter follow links p.origin _ (List.cons_ne_nil last []), ← hmore,
      List.append_assoc]
    exact (ht.reachAll_cases hreach).resolve_left habove follow links _ (by simp)
  have hmake : t.makeDirectory p = .error .notFound := by
    rw [makeDirectory, newPlace, approach, hstart, FilePath.steps_ofDirectory]
    dsimp only [bind, Except.bind]
    rw [hlead]
  rw [ensureDirectory_run, hmake]
  dsimp only
  split
  · next q hfind =>
    have hstart' := (ht.find_directory_iff.1 ⟨q, hfind⟩).1
    rw [find, approach, hstart'] at hfind
    dsimp only [bind, Except.bind] at hfind
    rw [hlead] at hfind
    cases hfind
  · rfl

theorem text_ofDirectory_ne (h : p.text ≠ "") : (ofDirectory p).text ≠ "" := by
  rcases FilePath.text_ofDirectory p with hp | ⟨c, cs, -, htext⟩
  · rwa [hp]
  · intro hempty
    rw [hempty] at htext
    cases htext

theorem start_of_ensureDirectory (hne : p.text ≠ "")
    (h : (ensureDirectory p : StateM Tree _) t = (.error .notFound, t')) :
    start (ofDirectory p) = .ok p.origin := by
  have hmake : t.makeDirectory p = .error .notFound := by
    rw [ensureDirectory_run] at h
    split at h
    · cases h
    · split at h <;> cases h
      assumption
  cases hstart : start (ofDirectory p) with
  | error e =>
    rw [makeDirectory, newPlace, approach, hstart] at hmake
    cases hmake
    unfold start at hstart
    split_ifs at hstart with hzero hempty hlong
    · cases hstart
    · exact absurd (String.isEmpty_iff.1 hempty) (text_ofDirectory_ne hne)
    · cases hstart
  | ok q => rw [start_eq_ok hstart, FilePath.origin_ofDirectory]

theorem steps_of_text_eq (h : p.text = "") : p.steps = [] := by
  change FilePath.stepsOf p.text.toList = []
  rw [h]
  exact FilePath.stepsOf_nil

theorem Plain.ensureDirectories_cons_iff (ht : t.Plain)
    (hsteps : steps.filter (· ≠ ".") <+: p.steps.dropLast.filter (· ≠ ".")) (hne : p.steps ≠ [])
    (hrest : start (ofDirectory p) = .ok p.origin → ∀ above,
      (ensureDirectories a rest : StateM Tree _) t = (.ok (), above)
        ↔ ∃ here, t.reachAll? p.origin steps = some (above, here)) :
    (ensureDirectories p (a :: rest) : StateM Tree _) t = (.ok (), t')
      ↔ ∃ above here, t.reachAll? p.origin steps = some (above, here) ∧ above.Ensures p t' := by
  have htext : p.text ≠ "" := mt steps_of_text_eq hne
  rw [ensureDirectories]
  constructor
  · intro h
    rcases hfirst : (ensureDirectory p : StateM Tree _) t with ⟨e | ⟨⟩, first⟩
    · obtain rfl := eq_of_ensureDirectory_error hfirst
      rw [bind_run hfirst] at h
      cases e with
      | notFound =>
        have hrest := hrest (start_of_ensureDirectory htext hfirst)
        dsimp only at h
        rcases hmade : (ensureDirectories a rest : StateM Tree _) first with ⟨e | ⟨⟩, made⟩
        · rw [bind_run hmade] at h
          cases h
        · rw [bind_run hmade] at h
          obtain ⟨here, hreach⟩ := (hrest made).1 hmade
          have hplain := (ht.spares_reachAll hreach here).plain
          exact ⟨made, here, hreach, hplain.ensureDirectory_eq_ok_iff.1 h⟩
      | _ => cases h
    · rw [bind_run hfirst] at h
      cases h
      have hensures := ht.ensureDirectory_eq_ok_iff.1 hfirst
      obtain ⟨here, hreach⟩ := ht.reachAll_of_ensures hensures hsteps
      exact ⟨t, here, hreach, hensures⟩
  · rintro ⟨made, here, hreach, hensures⟩
    have hplain := (ht.spares_reachAll hreach here).plain
    have hlast := hplain.ensureDirectory_eq_ok_iff.2 hensures
    -- Only if something has to be made on the way does the first try fail, and then as it should.
    by_cases hmade : made = t
    · rw [hmade] at hlast
      rw [bind_run hlast]
      rfl
    · have hstart := (hplain.ensures_iff.1 hensures).1
      rw [bind_run (ht.ensureDirectory_eq_notFound hstart hsteps hne hreach hmade)]
      dsimp only
      rw [bind_run ((hrest hstart made).2 ⟨here, hreach⟩)]
      exact hlast

theorem start_ofSteps (h : start p = .ok p.origin) (hsub : steps.Sublist p.steps)
    (hne : steps ≠ []) : start (.ofSteps p.isAbsolute steps) = .ok p.origin := by
  have hsteps : ∀ r ∈ steps, FilePath.IsStep r :=
    fun r hr => FilePath.isStep_of_mem (hsub.subset hr)
  have horigin : (FilePath.ofSteps p.isAbsolute steps).origin = p.origin := by
    rw [FilePath.origin, FilePath.isAbsolute_ofSteps hsteps, FilePath.origin]
  rw [← horigin]
  refine start_of_sublist h (FilePath.sublist_ofSteps hsub) fun hempty => hne ?_
  rw [← FilePath.steps_ofSteps hsteps, steps_of_text_eq hempty]

theorem Plain.ensureDirectories_nil_iff (ht : t.Plain) :
    (ensureDirectories p [] : StateM Tree _) t = (.ok (), t')
      ↔ p.text = "" ∧ t' = t ∨ t.Ensures p t' := by
  rw [ensureDirectories]
  by_cases htext : p.text = ""
  · rw [if_pos (String.isEmpty_iff.2 htext)]
    constructor
    · rintro ⟨⟩
      exact .inl ⟨htext, rfl⟩
    · rintro (⟨-, rfl⟩ | hensures)
      · rfl
      · have hstart := (ht.ensures_iff.1 hensures).1
        obtain rfl : p = ⟨""⟩ := congrArg FilePath.mk htext
        cases hstart
  · rw [if_neg (mt String.isEmpty_iff.1 htext), or_iff_right (fun h => htext h.1)]
    constructor
    · intro h
      rcases hmade : (ensureDirectory p : StateM Tree _) t with ⟨e | ⟨⟩, made⟩
      · rw [bind_run hmade] at h
        cases e <;> cases h
      · rw [bind_run hmade] at h
        cases h
        exact ht.ensureDirectory_eq_ok_iff.1 hmade
    · intro hensures
      rw [bind_run (ht.ensureDirectory_eq_ok_iff.2 hensures)]
      rfl

/-- The empty path and the root need no making. -/
theorem Plain.ensureDirectories_nil (ht : t.Plain) (absolute : Bool) :
    (ensureDirectories (.ofSteps absolute []) [] : StateM Tree _) t = (.ok (), t) := by
  cases absolute with
  | false => rfl
  | true =>
    have hroot : ∃ q, t.find true ⟨"/"⟩ = .ok (q, .directory) := by
      refine ht.find_directory_iff.2 ⟨rfl, fun r hr => ?_, List.forall_mem_nil _⟩
      rw [List.mem_singleton.1 hr]
      rfl
    exact ht.ensureDirectories_nil_iff.2 (.inr (.inr ⟨hroot, rfl⟩))

/-- The directories on the way are made from the outermost on. -/
theorem Plain.ensureDirectories_ofSteps_iff (ht : t.Plain) (hstart : start p = .ok p.origin)
    (hsub : steps.Sublist p.steps) :
    (ensureDirectories (.ofSteps p.isAbsolute steps) (FilePath.aboveSteps p.isAbsolute steps)
        : StateM Tree _) t = (.ok (), t')
      ↔ ∃ here, t.reachAll? p.origin steps = some (t', here) := by
  induction steps using List.reverseRecOn generalizing t' with
  | nil =>
    rw [FilePath.aboveSteps, List.length_nil, List.range_zero, List.reverse_nil, List.map_nil,
      ht.ensureDirectories_nil]
    constructor
    · rintro ⟨⟩
      exact ⟨_, rfl⟩
    · rintro ⟨here, h⟩
      cases h
      rfl
  | append_singleton steps s ih =>
    have hinit : steps.Sublist p.steps := (List.sublist_append_left steps [s]).trans hsub
    have hsteps : ∀ r ∈ steps ++ [s], FilePath.IsStep r :=
      fun r hr => FilePath.isStep_of_mem (hsub.subset hr)
    have hne := List.concat_ne_nil s steps
    have hstarts := start_ofSteps hstart hsub hne
    generalize hq : FilePath.ofSteps p.isAbsolute (steps ++ [s]) = q at hstarts
    have hqsteps : q.steps = steps ++ [s] := hq ▸ FilePath.steps_ofSteps hsteps
    have horigin : q.origin = p.origin := by
      rw [← hq, FilePath.origin, FilePath.isAbsolute_ofSteps hsteps, FilePath.origin]
    have hinner : q.steps.dropLast = steps := by rw [hqsteps, List.dropLast_concat]
    have hprefix : steps.filter (· ≠ ".") <+: q.steps.dropLast.filter (· ≠ ".") :=
      hinner.symm ▸ List.prefix_rfl
    rw [FilePath.aboveSteps_concat]
    rw [← horigin] at hstarts ih ⊢
    refine (ht.ensureDirectories_cons_iff hprefix (hqsteps ▸ hne) fun _ _ => ih hinit).trans ?_
    constructor
    · rintro ⟨above, here, hreach, hensures⟩
      obtain ⟨there, hlast⟩ := (ht.ensures_ofSteps_iff hsteps hq.symm hstarts hreach).1 hensures
      exact ⟨there, reachAll?_concat_eq_some.2 ⟨_, hreach, hlast⟩⟩
    · rintro ⟨there, h⟩
      obtain ⟨⟨above, here⟩, hreach, hlast⟩ := reachAll?_concat_eq_some.1 h
      exact ⟨above, here, hreach,
        (ht.ensures_ofSteps_iff hsteps hq.symm hstarts hreach).2 ⟨there, hlast⟩⟩

/-- A directory can be made exactly if the ones above it can be reached or made, from the outermost
on. -/
theorem Plain.makeDirectories_eq_ok_iff (ht : t.Plain) :
    (makeDirectories p : StateM Tree _) t = (.ok (), t') ↔ t.Makes p t' := by
  change (ensureDirectories p (FilePath.aboveSteps p.isAbsolute p.plainSteps) : StateM Tree _) t
    = _ ↔ _
  rw [Makes]
  rcases List.eq_nil_or_concat p.plainSteps with hnil | ⟨steps, s, hsteps⟩
  · rw [hnil, List.dropLast_nil, reachAll?_nil]
    refine ht.ensureDirectories_nil_iff.trans (or_congr_right ⟨fun h => ⟨t, _, rfl, h⟩, ?_⟩)
    rintro ⟨above, here, h, hensures⟩
    cases h
    exact hensures
  · rw [List.concat_eq_append] at hsteps
    have hne : p.steps ≠ [] := by
      intro hnil
      have hsub := FilePath.plainSteps_sublist p
      rw [hnil, List.sublist_nil, hsteps] at hsub
      exact List.concat_ne_nil _ _ hsub
    have htext : p.text ≠ "" := mt steps_of_text_eq hne
    have hsub : steps.Sublist (ofDirectory p).steps := by
      rw [FilePath.steps_ofDirectory]
      exact (hsteps ▸ List.sublist_append_left steps [s]).trans (FilePath.plainSteps_sublist p)
    rw [hsteps, FilePath.aboveSteps_concat, List.dropLast_concat, or_iff_right (fun h => htext h.1)]
    refine ht.ensureDirectories_cons_iff (FilePath.filter_dropLast_prefix hsteps) hne
      fun hstart above => ?_
    rw [← FilePath.origin_ofDirectory] at hstart ⊢
    rw [← FilePath.isAbsolute_ofDirectory]
    exact ht.ensureDirectories_ofSteps_iff hstart hsub

end Making

end Tree

end ThreeAddress.Files
