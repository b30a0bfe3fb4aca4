import ThreeAddress.Proofs.Outcome

/-!
# A job never uses a stale stream

Two trees that differ only in an old stream at the configured path stay `Twins` as long as nothing
is done on the way through that path, and when it is cleared they are alike everywhere. So a job
gives the same response from both and leaves the same files (`run_independent`), and a front end
that writes nothing cannot make it succeed.
-/

namespace ThreeAddress

namespace Files

variable {t u t' u' : Tree} {p a : FilePath} {q : Place} {away : List Place} {c : ByteArray}
  {R : Tree → Tree → Prop} {f : Tree → Except Error Tree}

namespace Tree

/-- The path leads to a place where there is nothing, or a file that has no other name. -/
structure NamesFile (t : Tree) (p : FilePath) (q : Place) : Prop where
  leads : t.newPlace true p = .ok q
  slash : p.endsInSlash = false
  file : t.isDirectoryAt q = false
  alone : t.namesOf q = [q]
  unshared : ∀ r, q ∈ t.namesOf r → r = q

/-- The trees differ only in what stands at the path, which is nothing or a file in both. -/
structure DifferAt (p : FilePath) (t u : Tree) : Prop where
  names : ∀ q, t.namesOf q = u.namesOf q
  nodes : ∀ q, t.get? q = u.get? q ∨ t.NamesFile p q ∧ u.NamesFile p q

/-- The trees are alike but for some places, where each has no more than a file that the path
names. -/
structure Twins (p : FilePath) (away : List Place) (t u : Tree) : Prop where
  left : t.Plain
  right : u.Plain
  names : ∀ q, t.namesOf q = u.namesOf q
  nodes : ∀ q, q ∉ away → t.get? q = u.get? q
  named : ∀ q ∈ away, t.NamesFile p q ∧ u.NamesFile p q

/-- The trees are alike, or twins but for the place of the path. -/
def Apart (p : FilePath) (t u : Tree) : Prop :=
  ∃ away, (∀ q ∈ away, q = p.place) ∧ Twins p away t u

theorem NamesFile.mono (h : t.NamesFile p q) (ht : t.Plain) (ht' : t'.Plain)
    (hnames : ∀ r, t'.namesOf r = t.namesOf r)
    (hdirs : ∀ r, t.isDirectoryAt r = true → t'.isDirectoryAt r = true)
    (hfile : t'.isDirectoryAt q = false) : t'.NamesFile p q where
  leads := by
    obtain ⟨hleads, rfl⟩ := ht.newPlace_eq_ok_iff.1 h.leads
    exact ht'.newPlace_eq_ok_iff.2 ⟨hleads.mono hdirs, rfl⟩
  slash := h.slash
  file := hfile
  alone := by rw [hnames, h.alone]
  unshared r hr := h.unshared r (by rwa [hnames] at hr)

section Congruence

theorem Plain.write_congr (ht : t.Plain) (hu : u.Plain)
    (hpassed : ∀ r ∈ p.passed, t.get? r = u.get? r)
    (hreplaced : (Node.replaced c (t.get? p.place)).map (fun _ => ())
      = (Node.replaced c (u.get? p.place)).map fun _ => ()) :
    (t.write p c).map (fun _ => ()) = (u.write p c).map fun _ => () := by
  have happroach := ht.approach_congr hu true true hpassed
  cases harrived : u.approach true p with
  | error e =>
    rw [Tree.write, Tree.write, happroach, harrived]
    rfl
  | ok arrived =>
    rw [harrived] at happroach
    rw [write_of_approach happroach, write_of_approach harrived]
    by_cases hdots : (isDots arrived.2 || p.endsInSlash) = true
    · rw [if_pos hdots, if_pos hdots]
    by_cases hlong : FilePath.isStepTooLong arrived.2 = true
    · rw [if_neg hdots, if_neg hdots, if_pos hlong, if_pos hlong]
    rw [if_neg hdots, if_neg hdots, if_neg hlong, if_neg hlong]
    rw [Bool.not_eq_true, Bool.or_eq_false_iff] at hdots
    obtain ⟨-, hplace⟩ := hu.leads_of_approach harrived hdots.1 (by simpa using hlong)
    rw [hplace]
    cases hn : Node.replaced c (t.get? p.place) <;> cases hn' : Node.replaced c (u.get? p.place)
    all_goals rw [hn, hn'] at hreplaced; cases hreplaced
    · rfl
    · rfl

theorem Plain.makeDirectory_congr (ht : t.Plain) (hu : u.Plain)
    (h : ∀ r ∈ p.places, t.get? r = u.get? r) :
    (t.makeDirectory p).map (fun _ => ()) = (u.makeDirectory p).map fun _ => () := by
  have hsteps := FilePath.steps_ofDirectory p
  have horigin := FilePath.origin_ofDirectory p
  have hnew : t.newPlace false (ofDirectory p) = u.newPlace false (ofDirectory p) := by
    unfold newPlace
    rw [ht.approach_congr hu false false fun r hr => h r (p.passed_subset_places ?_)]
    rwa [FilePath.passed, hsteps, horigin] at hr
  cases hq : u.newPlace false (ofDirectory p) with
  | error e =>
    rw [Tree.makeDirectory, Tree.makeDirectory, hnew, hq]
    rfl
  | ok q =>
    obtain ⟨-, rfl⟩ := hu.newPlace_eq_ok_iff.1 hq
    have hplace : (ofDirectory p).place = p.place := by
      rw [FilePath.place, FilePath.place, hsteps, horigin]
    rw [makeDirectory_of_newPlace (hnew.trans hq), makeDirectory_of_newPlace hq, add, add, hplace,
      h _ p.place_mem_places]
    split <;> rfl

theorem Plain.remove_congr (ht : t.Plain) (hu : u.Plain) (h : ∀ q, t.get? q = u.get? q) :
    (t.remove p).map (fun _ => ()) = (u.remove p).map fun _ => () := by
  have happroach := ht.approach_congr hu (p := p) false false fun r _ => h r
  cases harrived : u.approach false p with
  | error e =>
    rw [Tree.remove, Tree.remove, happroach, harrived]
    rfl
  | ok arrived =>
    rw [harrived] at happroach
    rw [remove_of_approach happroach, remove_of_approach harrived, h]
    split
    · rfl
    split
    · rfl
    split
    · rfl
    · rfl
    · split <;> rfl

end Congruence

section Twins

theorem NamesFile.write (h : t.NamesFile p q) (ht : t.Plain) (hw : t.write a c = .ok t') :
    t'.NamesFile p q := by
  have ht' := ht.write hw
  obtain ⟨hleads, -, hdir, rfl⟩ := ht.write_eq_ok_iff.1 hw
  have hne := hleads.place_ne_nil
  refine h.mono ht ht' (namesOf_of_shared (shared_overwrite t _ c))
    (fun r hr => ht.isDirectoryAt_overwrite hne hdir hr) ?_
  by_cases hmem : q ∈ t.namesOf a.place
  · rw [isDirectoryAt, ht.get?_overwrite hne, if_pos hmem]
  · rw [isDirectoryAt, ht.get?_overwrite hne, if_neg hmem]
    exact h.file

theorem NamesFile.makeDirectory (h : t.NamesFile p q) (ht : t.Plain) (hq : q ≠ a.place)
    (hm : t.makeDirectory a = .ok t') : t'.NamesFile p q := by
  obtain ⟨hne, hnone, rfl⟩ := ht.of_makeDirectory hm
  refine h.mono ht (ht.made hne hnone) (fun _ => rfl) (fun r hr => isDirectoryAt_made hne hr) ?_
  rw [isDirectoryAt, get?_made hne, if_neg hq]
  exact h.file

theorem Twins.write (h : Twins p away t u) (hw : t.write a c = .ok t')
    (hw' : u.write a c = .ok u') : Twins p away t' u' where
  left := h.left.write hw
  right := h.right.write hw'
  names r := by
    obtain ⟨-, -, -, rfl⟩ := h.left.write_eq_ok_iff.1 hw
    obtain ⟨-, -, -, rfl⟩ := h.right.write_eq_ok_iff.1 hw'
    rw [namesOf_of_shared (shared_overwrite t _ c), namesOf_of_shared (shared_overwrite u _ c),
      h.names]
  nodes r hr := by
    obtain ⟨hleads, -, -, rfl⟩ := h.left.write_eq_ok_iff.1 hw
    obtain ⟨-, -, -, rfl⟩ := h.right.write_eq_ok_iff.1 hw'
    have hne := hleads.place_ne_nil
    rw [h.left.get?_overwrite hne, h.right.get?_overwrite hne, h.names, h.nodes r hr]
  named r hr := ⟨(h.named r hr).1.write h.left hw, (h.named r hr).2.write h.right hw'⟩

theorem Twins.makeDirectory (h : Twins p away t u) (ha : a.place ∉ away)
    (hm : t.makeDirectory a = .ok t') (hm' : u.makeDirectory a = .ok u') : Twins p away t' u' where
  left := by
    obtain ⟨hne, hnone, rfl⟩ := h.left.of_makeDirectory hm
    exact h.left.made hne hnone
  right := by
    obtain ⟨hne, hnone, rfl⟩ := h.right.of_makeDirectory hm'
    exact h.right.made hne hnone
  names r := by
    obtain ⟨-, -, rfl⟩ := h.left.of_makeDirectory hm
    obtain ⟨-, -, rfl⟩ := h.right.of_makeDirectory hm'
    exact h.names r
  nodes r hr := by
    obtain ⟨hne, -, rfl⟩ := h.left.of_makeDirectory hm
    obtain ⟨-, -, rfl⟩ := h.right.of_makeDirectory hm'
    rw [get?_made hne, get?_made hne, h.nodes r hr]
  named r hr := by
    have hne : r ≠ a.place := by
      rintro rfl
      exact ha hr
    exact ⟨(h.named r hr).1.makeDirectory h.left hne hm,
      (h.named r hr).2.makeDirectory h.right hne hm'⟩

theorem Twins.remove (h : Twins p [] t u) (hr : t.remove a = .ok t') (hr' : u.remove a = .ok u') :
    Twins p [] t' u' := by
  obtain ⟨hleads, -, -, rfl⟩ := h.left.remove_eq_ok_iff.1 hr
  obtain ⟨-, -, -, rfl⟩ := h.right.remove_eq_ok_iff.1 hr'
  have hne := hleads.place_ne_nil
  refine ⟨h.left.erase hne, h.right.erase hne, fun r => ?_, fun r hr => ?_, nofun⟩
  · rw [namesOf_erase, namesOf_erase, h.names]
  · rw [get?_erase_of_ne_nil hne, get?_erase_of_ne_nil hne, h.nodes r hr]

end Twins

end Tree

section Keeping

open ThreeAddress.Files.Tree (Twins)

theorem keeps_isDirectory_twins (ha : ∀ q ∈ away, q ∉ a.places) :
    Keeps (Twins p away) (isDirectory a) := by
  intro t u h
  have hfind : t.find true a = u.find true a :=
    h.left.find_congr h.right true fun r hr => h.nodes r fun hmem => ha r hmem hr
  have hstatus : (t.status true a).toOption.map (·.kind)
      = (u.status true a).toOption.map (·.kind) := by
    unfold Tree.status
    rw [hfind]
    cases u.find true a <;> rfl
  refine ⟨?_, h⟩
  change ((t.status true a).toOption.map (·.kind) == some .directory) = _
  rw [hstatus]
  rfl

theorem keeps_isOccupied_twins (ha : ∀ q ∈ away, q ∉ a.places) :
    Keeps (Twins p away) (isOccupied a : StateM Tree _) :=
  keeps_isOccupied fun _ _ h =>
    h.left.find_congr h.right false fun r hr => h.nodes r fun hmem => ha r hmem hr

theorem keeps_makeDirectory_twins (ha : ∀ q ∈ away, q ∉ a.places) :
    Keeps (Twins p away) (Access.makeDirectory a : StateM Tree _) :=
  keeps_change
    (fun _ _ h =>
      h.left.makeDirectory_congr h.right fun r hr => h.nodes r fun hmem => ha r hmem hr)
    fun _ _ _ _ h => h.makeDirectory fun hmem => ha _ hmem a.place_mem_places

theorem keeps_writeText_twins (ha : ∀ q ∈ away, q ∉ a.passed) (text : String) :
    Keeps (Twins p away) (writeText a text : StateM Tree _) := by
  refine keeps_change (fun t u h => ?_) fun _ _ _ _ h => h.write
  refine h.left.write_congr h.right (fun r hr => h.nodes r fun hmem => ha r hmem hr) ?_
  by_cases hplace : a.place ∈ away
  · obtain ⟨ht, hu⟩ := h.named _ hplace
    rw [h.left.replaced_eq_ok_iff.2 ⟨ht.file, rfl⟩, h.right.replaced_eq_ok_iff.2 ⟨hu.file, rfl⟩]
  · rw [h.nodes _ hplace]

theorem keeps_remove_twins (a : FilePath) :
    Keeps (Twins p []) (Access.remove a : StateM Tree _) :=
  keeps_change (fun _ _ h => h.left.remove_congr h.right fun q => h.nodes q nofun)
    fun _ _ _ _ h => h.remove

theorem keeps_readText_twins (a : FilePath) : Keeps (Twins p []) (readText a : StateM Tree _) := by
  refine keeps_readText fun t u h => ?_
  rw [Tree.read, Tree.read, h.left.find_congr h.right true fun r _ => h.nodes r List.not_mem_nil]

end Keeping

end Files

namespace Job

open Files (FilePath Tree Takes Keeps)
open Files.Tree (NamesFile DifferAt Twins Apart namesOf_of_shared shared_overwrite)

variable {config : Config} {id source : String} {t u : Tree} {p file : FilePath}
  {q : Files.Place} {away : List Files.Place}

section Clearing

theorem clearStale_of_namesFile (ht : t.Plain) (h : t.NamesFile p q) :
    ∃ t', (clearStale p : ExceptT Failure (StateM Tree) Unit).run t = (.ok (), t') ∧ t'.Plain
      ∧ (∀ r, t'.namesOf r = t.namesOf r)
      ∧ ∀ r, t'.get? r = if r = q then none else t.get? r := by
  obtain ⟨hleads, rfl⟩ := ht.newPlace_eq_ok_iff.1 h.leads
  have hne := hleads.place_ne_nil
  rw [clearStale_run, hleads.remove_eq ht]
  cases hn : t.get? p.place with
  | none =>
    refine ⟨t, rfl, ht, fun _ => rfl, fun r => ?_⟩
    split
    · next hr => rw [hr, hn]
    · rfl
  | some n =>
    rcases ht.kinds _ _ hn with rfl | ⟨c, rfl⟩
    · have hfile := h.file
      rw [Tree.isDirectoryAt_iff.2 hn] at hfile
      cases hfile
    · refine ⟨t.erase p.place, by rw [h.slash]; rfl, ht.erase hne, fun r => ?_,
        Tree.get?_erase_of_ne_nil hne⟩
      rw [Tree.namesOf_erase]
      split
      · next hr => rw [hr, h.alone]
      · next hr =>
        refine List.filter_eq_self.2 fun r' hr' => ?_
        have hother : r' ≠ p.place := by
          rintro rfl
          exact hr (h.unshared r hr')
        simpa using hother

/-- Clearing the path makes the trees alike. -/
theorem takes_clearStale :
    Takes (Apart p) (Twins p []) (clearStale p : ExceptT Failure (StateM Tree) Unit).run := by
  rintro t u ⟨away, haway, h⟩
  by_cases hmem : p.place ∈ away
  · obtain ⟨ht, hu⟩ := h.named _ hmem
    obtain ⟨t', hrun, hplain, hnames, hget⟩ := clearStale_of_namesFile h.left ht
    obtain ⟨u', hrun', hplain', hnames', hget'⟩ := clearStale_of_namesFile h.right hu
    rw [hrun, hrun']
    refine ⟨rfl, hplain, hplain', fun r => ?_, fun r _ => ?_, nofun⟩
    · rw [hnames, hnames', h.names]
    · rw [hget, hget']
      split
      · rfl
      · next hr => exact h.nodes r fun hmem => hr (haway r hmem)
  · have halike : Twins p [] t u := by
      refine ⟨h.left, h.right, h.names, fun r _ => h.nodes r fun hr => ?_, nofun⟩
      rw [haway r hr] at hr
      exact hmem hr
    exact keeps_clearStale (Files.keeps_remove_twins p) t u halike

theorem apart_of_differAt (ht : t.Plain) (hu : u.Plain) (h : DifferAt p t u) : Apart p t u := by
  by_cases hnamed : t.NamesFile p p.place ∧ u.NamesFile p p.place
  · refine ⟨[p.place], fun q hq => List.mem_singleton.1 hq, ht, hu, h.names, fun r hr => ?_, ?_⟩
    · refine (h.nodes r).resolve_right fun hboth => ?_
      obtain ⟨-, rfl⟩ := ht.newPlace_eq_ok_iff.1 hboth.1.leads
      exact hr (List.mem_singleton_self _)
    · intro q hq
      rw [List.mem_singleton.1 hq]
      exact hnamed
  · refine ⟨[], nofun, ht, hu, h.names, fun r _ => ?_, nofun⟩
    refine (h.nodes r).resolve_right fun hboth => ?_
    obtain ⟨-, rfl⟩ := ht.newPlace_eq_ok_iff.1 hboth.1.leads
    exact hnamed hboth

end Clearing

section Runs

/-- What is kept whatever the places are where the trees may differ. -/
theorem keeps_apart {α : Type} {x : StateM Tree α}
    (h : ∀ away, (∀ q ∈ away, q = p.place) → Keeps (Twins p away) x) : Keeps (Apart p) x := by
  rintro t u ⟨away, haway, htu⟩
  obtain ⟨hresult, hafter⟩ := h away haway t u htu
  exact ⟨hresult, away, haway, hafter⟩

theorem isStep_stagedName (h : '/' ∉ id.toList) : FilePath.IsStep (stagedName id) := by
  rw [FilePath.IsStep, stagedName, String.toList_append, String.toList_append]
  refine ⟨?_, by simp⟩
  simp only [List.mem_append, not_or]
  exact ⟨⟨by decide, h⟩, by decide⟩

theorem keeps_makeDirectories_apart (hpath : p.place ∉ file.places) :
    Keeps (Apart p) (Files.makeDirectories file : StateM Tree _) := by
  refine keeps_apart fun away haway => ?_
  have havoids : ∀ a ∈ file :: file.above, ∀ q ∈ away, q ∉ a.places := by
    intro a ha q hq hmem
    rw [haway q hq] at hmem
    rcases List.mem_cons.1 ha with rfl | ha
    · exact hpath hmem
    · exact hpath (FilePath.places_of_mem_above ha hmem)
  exact Files.keeps_makeDirectories (fun a ha => Files.keeps_makeDirectory_twins (havoids a ha))
    fun a ha => Files.keeps_isDirectory_twins (havoids a ha)

theorem takes_translate_apart (x : Translation) :
    Takes (Apart config.irPath) (Twins config.irPath [])
      (translate config x.frontEnd file : ExceptT Failure (StateM Tree) String).run := by
  have hfrontEnd : Keeps (Twins config.irPath [])
      (x.frontEnd file config.irPath : StateM Tree _) :=
    x.keeps (Files.keeps_readText_twins file)
      (fun a => Files.keeps_makeDirectory_twins fun _ hq => nomatch hq)
      (fun a => Files.keeps_isDirectory_twins fun _ hq => nomatch hq)
      (Files.keeps_writeText_twins fun _ hq => nomatch hq)
  exact takes_translate
    (takes_prepare takes_clearStale hfrontEnd (Files.keeps_readText_twins _))
    (Files.keeps_writeText_twins fun _ hq => nomatch hq)

theorem keeps_run_apart (hpath : config.irPath.place ∉ config.inputDirectory.places)
    (hid : '/' ∉ id.toList) (hstaged : (config.staged id).place ≠ config.irPath.place)
    (source : String) (x : Translation) :
    Keeps (Apart config.irPath) (run config x.frontEnd id source : StateM Tree _) := by
  refine keeps_run (keeps_makeDirectories_apart hpath) (keeps_apart fun away haway => ?_)
    (takes_translate_apart x) (Files.keeps_remove_twins _) fun t u h => ⟨[], nofun, h⟩
  have hpassed : ∀ q ∈ away, q ∉ (config.staged id).passed := by
    intro q hq
    rw [Config.staged, FilePath.passed_join _ (isStep_stagedName hid), haway q hq]
    exact hpath
  have hplaces : ∀ q ∈ away, q ∉ (config.staged id).places := by
    intro q hq hmem
    rcases FilePath.mem_places_cases hmem with hmem | rfl
    · exact hpassed q hq hmem
    · exact hstaged (haway _ hq)
  exact Files.keeps_createText (Files.keeps_isOccupied_twins hplaces)
    (Files.keeps_writeText_twins hpassed source)

/-- A front end that writes nothing leaves no stream. -/
theorem translate_ne_ok_of_silent (ht : t.Plain) {x : Translation} (hx : x.Silent)
    {assembly : String} {left : Tree} :
    (translate config x.frontEnd file : ExceptT Failure (StateM Tree) String).run t
      ≠ (.ok assembly, left) := by
  intro h
  obtain ⟨prepared, hprepare, -⟩ := translate_eq_ok_iff.1 h
  obtain ⟨cleared, text, p, hclear, hleft, htext, -⟩ := prepare_eq_ok_iff.1 hprepare
  have hkeeps : Keeps (Files.Sole (· = cleared)) (x.frontEnd file config.irPath : StateM Tree _) :=
    hx.keeps (Files.keeps_readText_sole _ file)
  have hunchanged := Files.keeps_sole_iff.1 hkeeps cleared rfl
  rw [hleft] at hunchanged
  rw [show prepared = cleared from hunchanged] at htext
  exact unread_of_cleared ht hclear text htext

theorem fails_of_silent (config : Config) (id source : String) (ht : t.Plain) {x : Translation}
    (hx : x.Silent) :
    ((run config x.frontEnd id source : StateM Tree _) t).1.success = false := by
  have hmadePlain := (spares_makeDirectories ht [] config.inputDirectory).plain
  rw [run_eq]
  rcases hmade : (Files.makeDirectories config.inputDirectory : StateM Tree _) t with ⟨_ | _, made⟩
  · rfl
  rw [hmade] at hmadePlain
  dsimp only
  rcases hready : (Files.createText (config.staged id) source : StateM Tree _) made
    with ⟨_ | _, ready⟩
  · rfl
  have hready := hmadePlain.write (createText_eq_ok_iff.1 hready).2
  dsimp only
  rcases htranslate : (translate config x.frontEnd (config.staged id)
    : ExceptT Failure (StateM Tree) String).run ready with ⟨_ | assembly, left⟩
  · rfl
  · exact absurd htranslate (translate_ne_ok_of_silent hready hx)

/-- From trees that differ only in what stands at the path of the stream, a job answers the same and
leaves the same files but for the one there. If its front end writes nothing, it fails. -/
theorem run_independent (ht : t.Plain) (hu : u.Plain) (hdiffer : DifferAt config.irPath t u)
    (hpath : config.irPath.place ∉ config.inputDirectory.places) (hid : '/' ∉ id.toList)
    (hstaged : (config.staged id).place ≠ config.irPath.place) (x : Translation)
    {response response' : Response} {t' u' : Tree}
    (h : (run config x.frontEnd id source : StateM Tree _) t = (response, t'))
    (h' : (run config x.frontEnd id source : StateM Tree _) u = (response', u')) :
    response = response' ∧ (∀ q, q ≠ config.irPath.place → t'.get? q = u'.get? q)
      ∧ (x.Silent → response.success = false ∧ response'.success = false) := by
  have hkeeps := keeps_run_apart hpath hid hstaged source x t u (apart_of_differAt ht hu hdiffer)
  rw [h, h'] at hkeeps
  obtain ⟨hresponse, away, haway, htwins⟩ := hkeeps
  refine ⟨hresponse, fun q hq => htwins.nodes q fun hmem => hq (haway q hmem), fun hx => ?_⟩
  have hfails := fails_of_silent config id source ht hx
  have hfails' := fails_of_silent config id source hu hx
  rw [h] at hfails
  rw [h'] at hfails'
  exact ⟨hfails, hfails'⟩

/-- All files of the job stand in the working directory. -/
def flat : Config := ⟨[], ⟨"."⟩, ⟨"ir"⟩, ⟨"out"⟩, true⟩

/-- A working directory with a stream from an earlier job. -/
def littered : Tree := bare.overwrite flat.irPath.place printFiveText.toUTF8

def onlyReading : Translation := .read fun _ => .done (.ok ())

theorem plain_littered : littered.Plain := plain_bare.overwrite (by decide) _

theorem differAt_littered : DifferAt flat.irPath bare littered := by
  refine ⟨fun q => namesOf_of_shared (shared_overwrite bare _ _).symm q, fun q => ?_⟩
  rw [littered, plain_bare.get?_overwrite (by decide)]
  by_cases hq : q = flat.irPath.place
  · subst hq
    have hone : ∀ r, flat.irPath.place ∈ [r] → r = flat.irPath.place :=
      fun r hr => (List.mem_singleton.1 hr).symm
    refine .inr ⟨⟨?_, by decide, rfl, rfl, hone⟩, ⟨?_, by decide, rfl, rfl, hone⟩⟩
    · exact plain_bare.newPlace_eq_ok_iff.2 ⟨⟨rfl, by decide, by decide, by decide⟩, rfl⟩
    · exact plain_littered.newPlace_eq_ok_iff.2 ⟨⟨rfl, by decide, by decide, by decide⟩, rfl⟩
  · exact .inl (if_neg (mt List.mem_singleton.1 hq)).symm

theorem run_independent_littered : bare.Plain ∧ littered.Plain
    ∧ DifferAt flat.irPath bare littered ∧ flat.irPath.place ∉ flat.inputDirectory.places
    ∧ '/' ∉ "1".toList ∧ (flat.staged "1").place ≠ flat.irPath.place ∧ onlyReading.Silent
    ∧ ∃ response t' u',
      (run flat onlyReading.frontEnd "1" "main" : StateM Tree _) bare = (response, t')
      ∧ (run flat onlyReading.frontEnd "1" "main" : StateM Tree _) littered = (response, u')
      ∧ response.success = false ∧ ∀ q, q ≠ flat.irPath.place → t'.get? q = u'.get? q := by
  have hpath : flat.irPath.place ∉ flat.inputDirectory.places := by decide
  have hid : '/' ∉ "1".toList := by decide
  have hstaged : (flat.staged "1").place ≠ flat.irPath.place := by decide
  have hsilent : onlyReading.Silent := fun _ => trivial
  rcases hrun : (run flat onlyReading.frontEnd "1" "main" : StateM Tree _) bare
    with ⟨response, t'⟩
  rcases hrun' : (run flat onlyReading.frontEnd "1" "main" : StateM Tree _) littered
    with ⟨response', u'⟩
  obtain ⟨rfl, hnodes, hfails⟩ := run_independent plain_bare plain_littered differAt_littered hpath
    hid hstaged onlyReading hrun hrun'
  exact ⟨plain_bare, plain_littered, differAt_littered, hpath, hid, hstaged, hsilent, response, t',
    u', rfl, rfl, (hfails hsilent).1, hnodes⟩

end Runs

end Job

end ThreeAddress
