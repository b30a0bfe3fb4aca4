import ThreeAddress.Files.Operations
import ThreeAddress.Proofs.Pieces

/-!
# The places of a path

Where there are no links, the place that a path leads to can be told from its steps alone, and so
can the places on the way. A joined path goes on from where its directory leads (`steps_join`), the
slashes at the end of a path make no difference (`steps_ofDirectory`), and the paths above a path
lead nowhere that it does not lead through (`places_of_mem_above`).
-/

namespace ThreeAddress.Files

namespace Place

def step (here : Place) (s : String) : Place :=
  if s = "." then here else if s = ".." then here.dropLast else here ++ [s]

theorem step_of_isDots {s : String} (h : Tree.isDots s = false) (here : Place) :
    step here s = here ++ [s] := by
  rw [Tree.isDots, Bool.or_eq_false_iff] at h
  rw [step, if_neg (ne_of_beq_false h.1), if_neg (ne_of_beq_false h.2)]

/-- The places that some steps lead through from one, with that one and the last. -/
def along : Place → List String → List Place
  | here, [] => [here]
  | here, s :: steps => here :: along (step here s) steps

theorem mem_along_self (here : Place) (steps : List String) : here ∈ along here steps := by
  cases steps with
  | nil => exact List.mem_singleton_self here
  | cons s steps => exact List.mem_cons_self

theorem along_append_subset (here : Place) (steps more : List String) :
    along here steps ⊆ along here (steps ++ more) := by
  induction steps generalizing here with
  | nil => exact List.cons_subset.2 ⟨mem_along_self here more, List.nil_subset _⟩
  | cons s steps ih => exact List.cons_subset_cons here (ih (step here s))

theorem along_concat (here : Place) (steps : List String) (s : String) :
    along here (steps ++ [s]) = along here steps ++ [(steps ++ [s]).foldl step here] := by
  induction steps generalizing here with
  | nil => rfl
  | cons s' steps ih => exact congrArg (here :: ·) (ih (step here s'))

theorem foldl_mem_along (here : Place) (steps : List String) :
    steps.foldl step here ∈ along here steps := by
  induction steps generalizing here with
  | nil => exact List.mem_singleton_self here
  | cons s steps ih => exact List.mem_cons_of_mem here (ih (step here s))

/-- Steps that stay where they are can be left out. -/
theorem along_filter_subset (here : Place) (steps : List String) :
    along here (steps.filter (· ≠ ".")) ⊆ along here steps := by
  induction steps generalizing here with
  | nil => exact List.Subset.refl _
  | cons s steps ih =>
    by_cases hs : s = "."
    · subst hs
      exact List.subset_cons_of_subset here (ih here)
    · rw [List.filter_cons_of_pos (by simp [hs])]
      exact List.cons_subset_cons here (ih (step here s))

theorem subset_along_filter (here : Place) (steps : List String) :
    along here steps ⊆ along here (steps.filter (· ≠ ".")) := by
  induction steps generalizing here with
  | nil => exact List.Subset.refl _
  | cons s steps ih =>
    by_cases hs : s = "."
    · subst hs
      exact List.cons_subset.2 ⟨mem_along_self here _, ih here⟩
    · rw [List.filter_cons_of_pos (by simp [hs])]
      exact List.cons_subset_cons here (ih (step here s))

end Place

namespace FilePath

/-- What stands between the slashes of a text. -/
def stepsOf (cs : List Char) : List String :=
  ((cs.splitOn '/').filter (· ≠ [])).map String.ofList

variable {p : FilePath}

def origin (p : FilePath) : Place := if p.isAbsolute then [] else Tree.workingPlace

/-- Where a path leads if there are no links. -/
def place (p : FilePath) : Place := p.steps.foldl Place.step p.origin

/-- The places that a path leads through, and its own. -/
def places (p : FilePath) : List Place := Place.along p.origin p.steps

/-- The directory that the last step is taken in. -/
def parent (p : FilePath) : Place := p.steps.dropLast.foldl Place.step p.origin

/-- No step stays where it is. -/
def lastStep (p : FilePath) : String := p.steps.getLastD "."

/-- The directories that must be there for something to stand at a path. -/
def passed (p : FilePath) : List Place := Place.along p.origin p.steps.dropLast

theorem steps_eq (h : p.lastStep ≠ ".") : p.steps = p.steps.dropLast ++ [p.lastStep] := by
  rcases List.eq_nil_or_concat p.steps with hnil | ⟨steps, s, hsteps⟩
  · rw [lastStep, hnil] at h
    exact absurd rfl h
  · rw [List.concat_eq_append] at hsteps
    rw [lastStep, hsteps, List.dropLast_concat, List.getLastD_concat]

theorem step_parent (p : FilePath) : Place.step p.parent p.lastStep = p.place := by
  rcases List.eq_nil_or_concat p.steps with hnil | ⟨steps, s, hsteps⟩
  · rw [place, parent, lastStep, hnil]
    rfl
  · rw [List.concat_eq_append] at hsteps
    rw [place, parent, lastStep, hsteps, List.dropLast_concat, List.getLastD_concat,
      List.foldl_append]
    rfl

theorem place_eq (h : Tree.isDots p.lastStep = false) : p.place = p.parent ++ [p.lastStep] := by
  rw [← step_parent, Place.step_of_isDots h]

theorem place_mem_places (p : FilePath) : p.place ∈ p.places :=
  Place.foldl_mem_along p.origin p.steps

theorem parent_mem_passed (p : FilePath) : p.parent ∈ p.passed :=
  Place.foldl_mem_along p.origin p.steps.dropLast

theorem passed_subset_places (p : FilePath) : p.passed ⊆ p.places := by
  rcases List.eq_nil_or_concat p.steps with h | ⟨steps, s, h⟩
  · rw [passed, places, h]
    exact List.Subset.refl _
  · rw [passed, places, h, List.concat_eq_append, List.dropLast_concat]
    exact Place.along_append_subset p.origin steps [s]

/-- The places of a path are those on the way and its own. -/
theorem mem_places_cases {q : Place} (h : q ∈ p.places) : q ∈ p.passed ∨ q = p.place := by
  rcases List.eq_nil_or_concat p.steps with hnil | ⟨steps, s, hsteps⟩
  · rw [places, hnil] at h
    rw [passed, hnil]
    exact .inl h
  · rw [List.concat_eq_append] at hsteps
    rw [places, hsteps, Place.along_concat, List.mem_append, List.mem_singleton] at h
    rwa [passed, place, hsteps, List.dropLast_concat]

theorem passed_eq_of_steps {p q : FilePath} {s : String} (h : q.steps = p.steps ++ [s])
    (ho : q.origin = p.origin) : q.passed = p.places := by
  rw [passed, h, ho, List.dropLast_concat, places]

section Steps

variable {cs ds : List Char} {s : String} {steps : List String}

theorem stepsOf_nil : stepsOf [] = [] := by
  rw [stepsOf, List.splitOn_nil]
  rfl

theorem stepsOf_append_slash (cs ds : List Char) :
    stepsOf (cs ++ '/' :: ds) = stepsOf cs ++ stepsOf ds := by
  unfold stepsOf
  rw [List.splitOn_eq_splitOnP, List.splitOn_eq_splitOnP, List.splitOn_eq_splitOnP,
    List.splitOnP_append_cons _ _ (by simp), List.filter_append, List.map_append]

/-- A text without slashes that is not empty. -/
def IsStep (s : String) : Prop := '/' ∉ s.toList ∧ s.toList ≠ []

theorem stepsOf_isStep (h : IsStep s) : stepsOf s.toList = [s] := by
  rw [stepsOf, List.splitOn_eq_singleton h.1, List.filter_cons_of_pos (by simpa using h.2)]
  simp

/-- What does not start with a slash starts with a step. -/
theorem stepsOf_cons_ne_nil {c : Char} (cs : List Char) (hc : c ≠ '/') :
    stepsOf (c :: cs) ≠ [] := by
  obtain ⟨piece, pieces, hpieces⟩ := List.exists_cons_of_ne_nil (List.splitOn_ne_nil '/' cs)
  rw [stepsOf, List.splitOn_cons_eq_if_modifyHead, if_neg (by simpa using hc), hpieces,
    List.modifyHead_cons, List.filter_cons_of_pos (by simp), List.map_cons]
  exact List.cons_ne_nil _ _

theorem isStep_of_mem (h : s ∈ stepsOf cs) : IsStep s := by
  obtain ⟨l, hl, rfl⟩ := List.mem_map.1 h
  obtain ⟨hl, hne⟩ := List.mem_filter.1 hl
  rw [IsStep, String.toList_ofList]
  exact ⟨(Text.of_mem_splitOn hl).1, of_decide_eq_true hne⟩

/-- Slashes at the end separate nothing. -/
theorem stepsOf_rdropWhile (cs : List Char) :
    stepsOf (cs.rdropWhile (· == '/')) = stepsOf cs := by
  induction cs using List.reverseRecOn with
  | nil => rfl
  | append_singleton cs c ih =>
    by_cases hc : c = '/'
    · rw [List.rdropWhile_concat_pos _ _ _ (by simp [hc]), ih, hc, stepsOf_append_slash,
        stepsOf_nil, List.append_nil]
    · rw [List.rdropWhile_concat_neg _ _ _ (by simp [hc])]

theorem stepsOf_intercalate (h : ∀ s ∈ steps, IsStep s) :
    stepsOf (String.intercalate "/" steps).toList = steps := by
  rw [String.toList_intercalate]
  induction steps with
  | nil => exact stepsOf_nil
  | cons s steps ih =>
    have hs := stepsOf_isStep (h s List.mem_cons_self)
    cases steps with
    | nil => rw [List.map_singleton, List.intercalate_singleton, hs]
    | cons s' steps =>
      have ih := ih fun r hr => h r (List.mem_cons_of_mem s hr)
      rw [List.map_cons] at ih
      rw [List.map_cons, List.map_cons, List.intercalate_cons_cons, List.append_assoc]
      exact (stepsOf_append_slash _ _).trans (by rw [hs]; exact congrArg (s :: ·) ih)

theorem head?_intercalate (h : ∀ s ∈ steps, IsStep s) :
    (String.intercalate "/" steps).toList.head? ≠ some '/' := by
  rw [String.toList_intercalate]
  cases steps with
  | nil => simp
  | cons s steps =>
    obtain ⟨hslash, hne⟩ := h s List.mem_cons_self
    have hhead : ∀ rest, (s.toList ++ rest).head? ≠ some '/' := by
      intro rest hr
      rw [List.head?_append_of_ne_nil _ hne] at hr
      exact hslash (List.mem_of_head? hr)
    cases steps with
    | nil => simpa using hhead []
    | cons s' steps =>
      rw [List.map_cons, List.map_cons, List.intercalate_cons_cons, List.append_assoc]
      exact hhead _

end Steps

section Above

variable {p a : FilePath} {absolute : Bool} {steps : List String}

theorem steps_ofSteps (h : ∀ s ∈ steps, IsStep s) : (ofSteps absolute steps).steps = steps := by
  change stepsOf _ = _
  cases absolute with
  | false =>
    rw [ofSteps, if_neg (by simp), String.empty_append]
    exact stepsOf_intercalate h
  | true =>
    rw [ofSteps, if_pos rfl, String.toList_append]
    exact (stepsOf_append_slash [] _).trans (by rw [stepsOf_nil]; exact stepsOf_intercalate h)

theorem isAbsolute_ofSteps (h : ∀ s ∈ steps, IsStep s) :
    (ofSteps absolute steps).isAbsolute = absolute := by
  cases absolute with
  | false =>
    rw [isAbsolute, ofSteps, if_neg (by simp), String.empty_append]
    exact beq_false_of_ne (head?_intercalate h)
  | true =>
    rw [isAbsolute, ofSteps, if_pos rfl, String.toList_append]
    rfl

theorem plainSteps_sublist (p : FilePath) : p.plainSteps.Sublist p.steps := by
  unfold plainSteps
  split
  · exact List.nil_sublist _
  · next first rest h =>
    rw [h]
    dsimp only
    split
    · exact List.filter_sublist.cons first
    · exact List.filter_sublist.cons_cons first

theorem along_plainSteps_subset (p : FilePath) (here : Place) :
    Place.along here p.plainSteps ⊆ Place.along here p.steps := by
  unfold plainSteps
  split
  · next h => exact h ▸ List.Subset.refl _
  · next first rest h =>
    rw [h]
    dsimp only
    split
    · next hfirst =>
      have hdot : first = "." := by simp_all
      rw [hdot]
      exact List.subset_cons_of_subset here (Place.along_filter_subset here rest)
    · exact List.cons_subset_cons here (Place.along_filter_subset _ rest)

/-- A path leads through all places that the paths above it lead through. -/
theorem places_of_mem_above (h : a ∈ p.above) : a.places ⊆ p.places := by
  obtain ⟨n, -, rfl⟩ := List.mem_map.1 h
  have hsteps : ∀ s ∈ p.plainSteps.take n, IsStep s := fun s hs =>
    isStep_of_mem ((plainSteps_sublist p).subset (List.mem_of_mem_take hs))
  rw [places, places, origin, origin, steps_ofSteps hsteps, isAbsolute_ofSteps hsteps]
  refine List.Subset.trans ?_ (along_plainSteps_subset p _)
  have happend := Place.along_append_subset (if p.isAbsolute then [] else Tree.workingPlace)
    (p.plainSteps.take n) (p.plainSteps.drop n)
  rwa [List.take_append_drop] at happend

end Above

section Join

variable {p directory : FilePath} {name : String}

theorem steps_join (directory : FilePath) (name : String) :
    (directory.join name).steps = directory.steps ++ stepsOf name.toList := by
  change stepsOf _ = stepsOf _ ++ _
  unfold join
  split
  · next hc =>
    rcases Bool.or_eq_true_iff.1 hc with hempty | hslash
    · rw [String.isEmpty_iff.1 hempty, String.empty_append, String.toList_empty, stepsOf_nil,
        List.nil_append]
    · obtain ⟨cs, hcs⟩ := List.getLast?_eq_some_iff.1 (eq_of_beq hslash)
      rw [String.toList_append, hcs, List.append_assoc, List.singleton_append, stepsOf_append_slash,
        stepsOf_append_slash, stepsOf_nil, List.append_nil]
  · rw [String.toList_append, String.toList_append, List.append_assoc]
    exact stepsOf_append_slash _ _

theorem origin_join (directory : FilePath) (h : name.toList.head? ≠ some '/') :
    (directory.join name).origin = directory.origin := by
  suffices hhead : (directory.join name).isAbsolute = directory.isAbsolute by
    rw [origin, origin, hhead]
  unfold isAbsolute join
  cases hd : directory.text.toList with
  | nil =>
    rw [if_pos (by simp [String.toList_eq_nil_iff.1 hd]), String.toList_append, hd]
    exact beq_false_of_ne h
  | cons c cs => split <;> simp [hd]

theorem passed_join (directory : FilePath) (h : IsStep name) :
    (directory.join name).passed = directory.places := by
  refine passed_eq_of_steps (s := name) ?_ (origin_join directory fun hname => ?_)
  · rw [steps_join, stepsOf_isStep h]
  · exact h.1 (List.mem_of_head? hname)

/-- A path in a directory leads through it, whatever steps there are in its name. -/
theorem places_subset_passed_join (directory : FilePath) (h : name.toList.head? ≠ some '/')
    (hsteps : stepsOf name.toList ≠ []) : directory.places ⊆ (directory.join name).passed := by
  rw [places, passed, steps_join, origin_join directory h, List.dropLast_append_of_ne_nil hsteps]
  exact Place.along_append_subset _ _ _

end Join

section Directory

theorem text_ofDirectory (p : FilePath) : Tree.ofDirectory p = p
    ∨ ∃ c cs, p.text.toList.rdropWhile (· == '/') = c :: cs
      ∧ (Tree.ofDirectory p).text.toList = c :: cs := by
  unfold Tree.ofDirectory
  cases hkept : p.text.toList.reverse.dropWhile (· == '/') with
  | nil => exact .inl rfl
  | cons d ds =>
    cases hrev : (d :: ds).reverse with
    | nil => exact absurd (List.reverse_eq_nil_iff.1 hrev) (List.cons_ne_nil d ds)
    | cons c cs =>
      refine .inr ⟨c, cs, ?_, ?_⟩
      · rw [List.rdropWhile, hkept, hrev]
      · dsimp only
        rw [hrev, String.toList_ofList]

theorem steps_ofDirectory (p : FilePath) : (Tree.ofDirectory p).steps = p.steps := by
  rcases text_ofDirectory p with h | ⟨c, cs, hp, htext⟩
  · rw [h]
  · change stepsOf _ = stepsOf _
    rw [htext, ← hp, stepsOf_rdropWhile]

theorem isAbsolute_ofDirectory (p : FilePath) :
    (Tree.ofDirectory p).isAbsolute = p.isAbsolute := by
  rcases text_ofDirectory p with h | ⟨c, cs, hp, htext⟩
  · rw [h]
  · obtain ⟨rest, hrest⟩ := List.rdropWhile_prefix (· == '/') p.text.toList
    rw [isAbsolute, isAbsolute, htext, ← hrest, hp]
    rfl

theorem origin_ofDirectory (p : FilePath) : (Tree.ofDirectory p).origin = p.origin := by
  rw [origin, origin, isAbsolute_ofDirectory]

end Directory

end FilePath

end ThreeAddress.Files
