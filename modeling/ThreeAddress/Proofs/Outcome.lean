import ThreeAddress.Proofs.Directories
import ThreeAddress.Proofs.Renaming
import ThreeAddress.Proofs.Stages

/-!
# The outcome of a job

A job makes its input directory, stages the source, clears the path of the stream and has the front
end leave a stream there, compiles it and writes the assembly. The front end finds the source in the
staged file. The job succeeds exactly if it comes through this whole `Course`, and then answers what
it has written; otherwise the file at the output path is as it was. However it ends, the staged file
is gone (`run_outcome`).
-/

namespace ThreeAddress.Job

open Files (FilePath Tree Keeps Sole)

variable {config : Config} {frontEnd : FrontEnd (StateM Tree)} {id source assembly text : String}
  {program : Program} {x : Translation} {t made ready cleared left written : Tree}
  {p file : FilePath} {o q : Files.Place}

section Course

/-- The input directory is made, if it is not there, and the source is staged in it, where there is
nothing. -/
structure Staged (config : Config) (id source : String) (t made ready : Tree) : Prop where
  makes : t.Makes config.inputDirectory made
  vacant : made.find false (config.staged id) = .error .notFound
  writes : made.write (config.staged id) source.toUTF8 = .ok ready

/-- The trees that a job comes through on its way, up to the one with its output written, the text
that the front end left, and its program. -/
structure Course (config : Config) (frontEnd : FrontEnd (StateM Tree)) (id source : String)
    (t made ready cleared left written : Tree) (text : String) (program : Program) : Prop where
  staged : Staged config id source t made ready
  clears : Cleared config.irPath ready cleared
  /-- The text is left by the front end, as there is none before. -/
  unread : ∀ old, cleared.text config.irPath ≠ .ok old
  translates : (frontEnd (config.staged id) config.irPath : StateM Tree _) cleared = (.ok (), left)
  leaves : left.text config.irPath = .ok text
  generates : Program.generate ⟨config.strict, "_start"⟩ (Instruction.ofText text) = .ok program
  writes : left.write config.outputPath program.text.toUTF8 = .ok written

/-- The job comes through, with this program. -/
def Completes (config : Config) (frontEnd : FrontEnd (StateM Tree)) (id source : String) (t : Tree)
    (program : Program) : Prop :=
  ∃ made ready cleared left written text,
    Course config frontEnd id source t made ready cleared left written text program

theorem Course.translate_run
    (h : Course config frontEnd id source t made ready cleared left written text program) :
    (translate config frontEnd (config.staged id)).run ready = (.ok program.text, written) := by
  obtain ⟨p, hp, hptext⟩ := Program.exists_generate_ofText config.irPath.text h.generates
  exact translate_eq_ok_iff.2 ⟨left, prepare_eq_ok_iff.2
    ⟨cleared, text, p, h.clears, h.translates, h.leaves, hp, hptext⟩, h.writes⟩

theorem exists_completes (h : Staged config id source t made ready) (hplain : ready.Plain)
    (htranslate : (translate config frontEnd (config.staged id)).run ready
      = (.ok assembly, written)) :
    ∃ program, Completes config frontEnd id source t program ∧ program.text = assembly := by
  obtain ⟨left, hprepare, hwrite⟩ := translate_eq_ok_iff.1 htranslate
  obtain ⟨cleared, text, p, hclear, hleft, htext, hp, rfl⟩ := prepare_eq_ok_iff.1 hprepare
  obtain ⟨program, hprogram, hptext⟩ := Program.exists_generate_ofText "<input>" hp
  refine ⟨program, ⟨made, ready, cleared, left, written, text, h, hclear,
    unread_of_cleared hplain hclear, hleft, htext, hprogram, ?_⟩, hptext⟩
  rw [hptext, hwrite]

end Course

section Effects

theorem spares_makeDirectories (ht : t.Plain) (o : Files.Place) (p : FilePath) :
    Tree.Spares o t ((Files.makeDirectories p : StateM Tree _) t).2 :=
  Files.keeps_sole_iff.1
    (Files.keeps_makeDirectories (fun a _ => Files.keeps_makeDirectory_spares o t a)
      fun a _ => Files.keeps_isDirectory_sole _ a)
    t (Tree.Spares.refl o ht)

/-- No directory is made at a place that the path does not lead through. -/
theorem vacant_makeDirectories (ht : t.Plain) {q : Files.Place} {p : FilePath}
    (hq : t.get? q = none) (hp : q ∉ p.places) :
    ((Files.makeDirectories p : StateM Tree _) t).2.get? q = none := by
  let I : Tree → Prop := fun t' => t'.Plain ∧ t'.get? q = none
  have hkeeps : Keeps (Sole I) (Files.makeDirectories p : StateM Tree _) := by
    refine Files.keeps_makeDirectories (fun a ha => ?_) fun a _ => Files.keeps_isDirectory_sole _ a
    refine Files.keeps_change_sole fun t t' hI hmade => ?_
    obtain ⟨hne, hnone, rfl⟩ := hI.1.of_makeDirectory hmade
    refine ⟨hI.1.made hne hnone, ?_⟩
    rw [Tree.get?_made hne, if_neg, hI.2]
    rintro rfl
    rcases List.mem_cons.1 ha with rfl | ha
    · exact hp a.place_mem_places
    · exact hp (FilePath.places_of_mem_above ha a.place_mem_places)
  exact (Files.keeps_sole_iff.1 hkeeps t ⟨ht, hq⟩).2

theorem keeps_prepare_spares (ho : o ∉ t.namesOf config.irPath.place) (x : Translation)
    (file : FilePath) : Keeps (Sole (Tree.Spares o t)) (prepare config x.frontEnd file).run := by
  have hne : o ≠ config.irPath.place := by
    rintro rfl
    exact ho (Tree.mem_namesOf_self t _)
  refine takes_prepare (keeps_clearStale (Files.keeps_remove_spares hne)) ?_
    (Files.keeps_readText_sole _ _)
  exact Translation.keeps (Files.keeps_readText_sole _ _)
    (Files.keeps_makeDirectory_spares o t) (Files.keeps_isDirectory_sole _)
    (Files.keeps_writeText_spares ho) x

/-- Until the output is written, a file that has not the name of the stream is as it was. -/
theorem fileAt?_of_translate_error (hplain : t.Plain) {e : Failure}
    (ho : o ∉ t.namesOf config.irPath.place)
    (h : (translate config x.frontEnd file : ExceptT Failure (StateM Tree) String).run t
      = (.error e, left)) : left.fileAt? o = t.fileAt? o := by
  have hspares := Files.keeps_sole_iff.1 (keeps_prepare_spares ho x file) t
    (Tree.Spares.refl o hplain)
  rw [Job.translate_run] at h
  rcases hprepare : (prepare config x.frontEnd file : ExceptT Failure (StateM Tree) String).run t
    with ⟨_ | assembly, prepared⟩
  · rw [hprepare] at h hspares
    cases h
    exact hspares.file
  rw [hprepare] at h hspares
  dsimp only at h
  rcases hwrite : (Files.writeText config.outputPath assembly : StateM Tree _) prepared
    with ⟨_ | _, written⟩
  · rw [hwrite] at h
    cases h
    rw [eq_of_writeText_error hwrite]
    exact hspares.file
  · rw [hwrite] at h
    cases h

/-- What was written stays to be read when the staged file is removed. -/
theorem text_of_written (hplain : left.Plain) {p : FilePath} {q : Files.Place} {c : ByteArray}
    (hwrite : left.write p assembly.toUTF8 = .ok written) (hq : q ≠ []) (hne : p.place ≠ q)
    (hc : written.get? q = some (.file c)) : (written.erase q).text p = .ok assembly := by
  obtain ⟨hleads, hslash, hdir, rfl⟩ := hplain.write_eq_ok_iff.1 hwrite
  have hp := hleads.place_ne_nil
  refine Tree.text_of_read (Tree.Leads.read_eq (hleads.mono fun r hr => ?_)
    ((hplain.overwrite hp _).erase hq) hslash ?_)
  · exact Tree.isDirectoryAt_erase hq hc (hplain.isDirectoryAt_overwrite hp hdir hr)
  · rw [Tree.get?_erase_of_ne_nil hq, if_neg hne, hplain.get?_overwrite hp,
      if_pos (Tree.mem_namesOf_self _ _)]

end Effects

section Staged

/-- Nothing stands where the job stages its source, and none of its paths leads there. -/
structure Fresh (config : Config) (id : String) (t : Tree) : Prop where
  vacant : t.get? (config.staged id).place = none
  inputDirectory : (config.staged id).place ∉ config.inputDirectory.places
  irPath : (config.staged id).place ≠ config.irPath.place
  outputPath : (config.staged id).place ≠ config.outputPath.place

/-- The staged file is in the input directory, also if the identifier has steps of its own. -/
theorem place_mem_passed_staged (config : Config) (id : String) :
    config.inputDirectory.place ∈ (config.staged id).passed := by
  obtain ⟨cs, hcs⟩ : ∃ cs, (stagedName id).toList = 'i' :: cs := by
    rw [stagedName, String.toList_append, String.toList_append]
    exact ⟨_, rfl⟩
  refine FilePath.places_subset_passed_join _ ?_ ?_ (FilePath.place_mem_places _)
  · rw [hcs, List.head?_cons]
    decide
  · rw [hcs]
    exact FilePath.stepsOf_cons_ne_nil cs (by decide)

/-- The staged file has one name, and it is not written at another. -/
theorem not_mem_namesOf_staged (ht : t.Plain) (hfresh : Fresh config id t) {r : Files.Place}
    (hr : (config.staged id).place ≠ r) : (config.staged id).place ∉ t.namesOf r := by
  intro hmem
  obtain ⟨c, hc⟩ := ht.file_of_mem_namesOf hmem hr
  rw [hfresh.vacant] at hc
  cases hc

namespace Staged

theorem createText_eq (h : Staged config id source t made ready) :
    (Files.createText (config.staged id) source : StateM Tree _) made = (.ok (), ready) :=
  createText_eq_ok_iff.2 ⟨h.vacant, h.writes⟩

variable (h : Staged config id source t made ready) (ht : t.Plain)

include h ht

theorem makeDirectories_eq :
    (Files.makeDirectories config.inputDirectory : StateM Tree _) t = (.ok (), made) :=
  ht.makeDirectories_eq_ok_iff.2 h.makes

theorem unique {made' ready' : Tree} (h' : Staged config id source t made' ready') :
    made' = made ∧ ready' = ready := by
  have hmakes := h'.makeDirectories_eq ht
  rw [h.makeDirectories_eq ht] at hmakes
  cases hmakes
  have hstages := h'.createText_eq
  rw [h.createText_eq] at hstages
  cases hstages
  exact ⟨rfl, rfl⟩

theorem spares_made (o : Files.Place) : Tree.Spares o t made := by
  have hspares := spares_makeDirectories ht o config.inputDirectory
  rwa [h.makeDirectories_eq ht] at hspares

theorem plain_made : made.Plain := (h.spares_made ht []).plain

theorem plain : ready.Plain := (h.plain_made ht).write h.writes

theorem endsInSlash_eq : (config.staged id).endsInSlash = false :=
  ((h.plain_made ht).write_eq_ok_iff.1 h.writes).2.1

/-- The path of the staged file leads there for as long as the file is left alone. -/
theorem leads (hleft : Tree.Spares (config.staged id).place ready left) :
    left.Leads (config.staged id) := by
  obtain ⟨hleads, -, hdir, hready⟩ := (h.plain_made ht).write_eq_ok_iff.1 h.writes
  refine hleads.mono fun r hr => hleft.directories r ?_
  rw [hready]
  exact (h.plain_made ht).isDirectoryAt_overwrite hleads.place_ne_nil hdir hr

theorem place_ne_nil : (config.staged id).place ≠ [] :=
  (h.leads ht (Tree.Spares.refl _ (h.plain ht))).place_ne_nil

theorem not_mem_namesOf (ho : o ∉ t.namesOf q) : o ∉ ready.namesOf q := by
  obtain ⟨-, -, -, rfl⟩ := (h.plain_made ht).write_eq_ok_iff.1 h.writes
  intro hmem
  rw [Tree.namesOf_of_shared (Tree.shared_overwrite _ _ _)] at hmem
  exact ho ((h.spares_made ht o).names q hmem)

/-- Staging leaves all other files alone. -/
theorem spares (hfresh : Fresh config id t) (ho : o ≠ (config.staged id).place) :
    Tree.Spares o t ready := by
  refine (h.spares_made ht o).write ?_ h.writes
  rwa [ht.namesOf_of_none hfresh.vacant, List.mem_singleton]

/-- What comes after staging leaves the staged file alone. -/
theorem spares_translate (hfresh : Fresh config id t) (x : Translation) :
    Tree.Spares (config.staged id).place ready
      ((translate config x.frontEnd (config.staged id) : ExceptT Failure (StateM Tree) String).run
        ready).2 := by
  have hirPath := h.not_mem_namesOf ht (not_mem_namesOf_staged ht hfresh hfresh.irPath)
  have houtput := h.not_mem_namesOf ht (not_mem_namesOf_staged ht hfresh hfresh.outputPath)
  exact Files.keeps_sole_iff.1
    (takes_translate (keeps_prepare_spares hirPath x _) (Files.keeps_writeText_spares houtput))
    ready (Tree.Spares.refl _ (h.plain ht))

theorem get?_staged (hleft : Tree.Spares (config.staged id).place ready left) :
    left.get? (config.staged id).place = some (.file source.toUTF8) := by
  have hmade := h.plain_made ht
  obtain ⟨hleads, -, -, rfl⟩ := hmade.write_eq_ok_iff.1 h.writes
  rw [← Tree.fileAt?_eq_some_iff, hleft.file, Tree.fileAt?_eq_some_iff,
    hmade.get?_overwrite hleads.place_ne_nil, if_pos (Tree.mem_namesOf_self _ _)]

/-- When the front end is called, the input directory is there and the staged file in it holds the
source. -/
theorem holds (hfresh : Fresh config id t) (hclear : Cleared config.irPath ready cleared) :
    cleared.isDirectoryAt config.inputDirectory.place = true
      ∧ cleared.text (config.staged id) = .ok source := by
  have hcleared : Tree.Spares (config.staged id).place ready cleared := by
    rcases hclear with hremove | ⟨-, rfl⟩
    · exact (Tree.Spares.refl _ (h.plain ht)).remove hfresh.irPath hremove
    · exact Tree.Spares.refl _ (h.plain ht)
  have hleads := h.leads ht hcleared
  constructor
  · exact hleads.directories _ (place_mem_passed_staged config id)
  · exact Tree.text_of_read (hleads.read_eq hcleared.plain (h.endsInSlash_eq ht)
      (h.get?_staged ht hcleared))

/-- Whatever the job comes to, the staged file is removed in the end. -/
theorem run_eq (hfresh : Fresh config id t) {result : Except Failure String}
    (htranslate : (translate config x.frontEnd (config.staged id)
      : ExceptT Failure (StateM Tree) String).run ready = (result, left)) :
    (run config x.frontEnd id source : StateM Tree _) t
      = (.ofResult result, left.erase (config.staged id).place) := by
  have hleft := h.spares_translate ht hfresh x
  rw [htranslate] at hleft
  have hremove : left.remove (config.staged id) = .ok (left.erase (config.staged id).place) :=
    hleft.plain.remove_eq_ok_iff.2
      ⟨h.leads ht hleft, h.endsInSlash_eq ht, ⟨_, h.get?_staged ht hleft⟩, rfl⟩
  rw [Job.run_eq, h.makeDirectories_eq ht]
  dsimp only
  rw [h.createText_eq]
  dsimp only
  rw [htranslate]
  dsimp only
  rw [remove_run, hremove]

end Staged

end Staged

section Outcome

/-- The staged file is gone, the job has not come through, and its output path is untouched. -/
structure Fails (config : Config) (frontEnd : FrontEnd (StateM Tree)) (id source : String)
    (t after : Tree) : Prop where
  gone : after.get? (config.staged id).place = none
  not_completes : ∀ program, ¬ Completes config frontEnd id source t program
  untouched : after.fileAt? config.outputPath.place = t.fileAt? config.outputPath.place

/-- The staged file is gone, the job has come through with this assembly, and has written it. -/
structure Succeeds (config : Config) (frontEnd : FrontEnd (StateM Tree)) (id source : String)
    (t after : Tree) (assembly : String) : Prop where
  gone : after.get? (config.staged id).place = none
  completes : ∃ program, Completes config frontEnd id source t program
  answers : ∀ program, Completes config frontEnd id source t program → assembly = program.text
  writes : after.text config.outputPath = .ok assembly

theorem fails_of_made (ht : t.Plain) (hfresh : Fresh config id t) {e : Files.Error}
    (hmakes : (Files.makeDirectories config.inputDirectory : StateM Tree _) t = (.error e, made)) :
    Fails config frontEnd id source t made := by
  have hspares := spares_makeDirectories ht config.outputPath.place config.inputDirectory
  have hvacant := vacant_makeDirectories ht hfresh.vacant hfresh.inputDirectory
  rw [hmakes] at hspares hvacant
  refine ⟨hvacant, ?_, hspares.file⟩
  rintro program ⟨made', ready, cleared, left, written, text, hcourse⟩
  rw [hcourse.staged.makeDirectories_eq ht] at hmakes
  cases hmakes

theorem fails_of_unstaged (ht : t.Plain) (hfresh : Fresh config id t) {e : Files.Error}
    (hmakes : (Files.makeDirectories config.inputDirectory : StateM Tree _) t = (.ok (), made))
    (hstages : (Files.createText (config.staged id) source : StateM Tree _) made
      = (.error e, ready)) :
    Fails config frontEnd id source t ready := by
  have hspares := spares_makeDirectories ht config.outputPath.place config.inputDirectory
  have hvacant := vacant_makeDirectories ht hfresh.vacant hfresh.inputDirectory
  obtain rfl := eq_of_createText_error hstages
  rw [hmakes] at hspares hvacant
  refine ⟨hvacant, ?_, hspares.file⟩
  rintro program ⟨made', ready', cleared, left, written, text, hcourse⟩
  have hmakes' := hcourse.staged.makeDirectories_eq ht
  rw [hmakes] at hmakes'
  cases hmakes'
  rw [hcourse.staged.createText_eq] at hstages
  cases hstages

/-- A job that has staged its source comes through exactly with what it makes of it. -/
theorem Staged.translate_run (h : Staged config id source t made ready) (ht : t.Plain)
    (hcompletes : Completes config frontEnd id source t program) :
    ∃ written, (translate config frontEnd (config.staged id)).run ready
      = (.ok program.text, written) := by
  obtain ⟨made', ready', cleared, left, written, text, hcourse⟩ := hcompletes
  obtain ⟨rfl, rfl⟩ := h.unique ht hcourse.staged
  exact ⟨written, hcourse.translate_run⟩

theorem Staged.fails (h : Staged config id source t made ready) (ht : t.Plain)
    (hfresh : Fresh config id t) (hnames : config.outputPath.place ∉ t.namesOf config.irPath.place)
    {e : Failure} (htranslate : (translate config x.frontEnd (config.staged id)
      : ExceptT Failure (StateM Tree) String).run ready = (.error e, left)) :
    Fails config x.frontEnd id source t (left.erase (config.staged id).place) where
  gone := by rw [Tree.get?_erase_of_ne_nil (h.place_ne_nil ht), if_pos rfl]
  not_completes program hcompletes := by
    obtain ⟨written, hwritten⟩ := h.translate_run ht hcompletes
    rw [htranslate] at hwritten
    cases hwritten
  untouched :=
    calc (left.erase (config.staged id).place).fileAt? config.outputPath.place
      _ = left.fileAt? config.outputPath.place := Tree.fileAt?_congr (by
          rw [Tree.get?_erase_of_ne_nil (h.place_ne_nil ht), if_neg hfresh.outputPath.symm])
      _ = ready.fileAt? config.outputPath.place :=
          fileAt?_of_translate_error (h.plain ht) (h.not_mem_namesOf ht hnames) htranslate
      _ = t.fileAt? config.outputPath.place := (h.spares ht hfresh hfresh.outputPath.symm).file

theorem Staged.succeeds (h : Staged config id source t made ready) (ht : t.Plain)
    (hfresh : Fresh config id t) (hnames : config.outputPath.place ∉ t.namesOf config.irPath.place)
    (htranslate : (translate config x.frontEnd (config.staged id)
      : ExceptT Failure (StateM Tree) String).run ready = (.ok assembly, left)) :
    Succeeds config x.frontEnd id source t (left.erase (config.staged id).place) assembly where
  gone := by rw [Tree.get?_erase_of_ne_nil (h.place_ne_nil ht), if_pos rfl]
  completes := by
    obtain ⟨program, hprogram, -⟩ := exists_completes h (h.plain ht) htranslate
    exact ⟨program, hprogram⟩
  answers program hcompletes := by
    obtain ⟨written, hwritten⟩ := h.translate_run ht hcompletes
    rw [htranslate] at hwritten
    exact Except.ok.inj (congrArg Prod.fst hwritten)
  writes := by
    obtain ⟨prepared, hprepare, hwrite⟩ := translate_eq_ok_iff.1 htranslate
    have hprepared := Files.keeps_sole_iff.1
      (keeps_prepare_spares (h.not_mem_namesOf ht hnames) x (config.staged id)) ready
      (Tree.Spares.refl _ (h.plain ht))
    rw [hprepare] at hprepared
    have hleft := h.spares_translate ht hfresh x
    rw [htranslate] at hleft
    exact text_of_written hprepared.plain hwrite (h.place_ne_nil ht) hfresh.outputPath.symm
      (h.get?_staged ht hleft)

theorem run_cases (ht : t.Plain) (hfresh : Fresh config id t)
    (hnames : config.outputPath.place ∉ t.namesOf config.irPath.place) (x : Translation)
    (source : String) :
    (∃ e after, (run config x.frontEnd id source : StateM Tree _) t = (.ofResult (.error e), after)
      ∧ Fails config x.frontEnd id source t after)
    ∨ ∃ assembly after,
      (run config x.frontEnd id source : StateM Tree _) t = (.ofResult (.ok assembly), after)
      ∧ Succeeds config x.frontEnd id source t after assembly := by
  rcases hmakes : (Files.makeDirectories config.inputDirectory : StateM Tree _) t
    with ⟨e | _, made⟩
  · refine .inl ⟨.inputDirectory config.inputDirectory e, made, ?_, fails_of_made ht hfresh hmakes⟩
    rw [run_eq, hmakes]
  rcases hstages : (Files.createText (config.staged id) source : StateM Tree _) made
    with ⟨e | _, ready⟩
  · refine .inl ⟨.staging e, ready, ?_, fails_of_unstaged ht hfresh hmakes hstages⟩
    rw [run_eq, hmakes]
    dsimp only
    rw [hstages]
  obtain ⟨hvacant, hwrites⟩ := createText_eq_ok_iff.1 hstages
  have h : Staged config id source t made ready :=
    ⟨ht.makeDirectories_eq_ok_iff.1 hmakes, hvacant, hwrites⟩
  rcases htranslate : (translate config x.frontEnd (config.staged id)
    : ExceptT Failure (StateM Tree) String).run ready with ⟨e | assembly, left⟩
  · exact .inl ⟨e, _, h.run_eq ht hfresh htranslate, h.fails ht hfresh hnames htranslate⟩
  · exact .inr ⟨assembly, _, h.run_eq ht hfresh htranslate, h.succeeds ht hfresh hnames htranslate⟩

/-- A working directory with nothing in it. -/
def bare : Tree := ⟨[(Tree.workingPlace, .directory)], [], []⟩

/-- The source is staged in a directory that may have to be made with the one above it. -/
def nested : Config := ⟨[], ⟨"in/c"⟩, ⟨"ir"⟩, ⟨"out"⟩, true⟩

def printFiveText : String := "0\t(PRINT, #5, , )\n"

/-- Leaves what was read as the stream. -/
def leaveRead : Except Files.Error String → Translation
  | .ok text => .write true text fun _ => .done (.ok ())
  | .error e => .done (.error e.text)

/-- A front end for sources that are streams already. -/
def echo : Translation := .read leaveRead

theorem plain_bare : bare.Plain := by
  refine ⟨fun q n h => ?_, nofun⟩
  cases q with
  | nil =>
    cases h
    exact .inl rfl
  | cons s steps =>
    change List.lookup _ [(_, _)] = _ at h
    rw [List.lookup_cons] at h
    split at h
    · cases h
      exact .inl rfl
    · cases h

/-- The input directory is made in the bare one, and nothing else is there. -/
structure Nested (made : Tree) : Prop where
  plain : made.Plain
  makes : bare.Makes nested.inputDirectory made
  staged : made.Leads (nested.staged "1") ∧ made.get? (nested.staged "1").place = none
  irPath : made.Leads nested.irPath ∧ made.get? nested.irPath.place = none
  outputPath : made.Leads nested.outputPath ∧ made.get? nested.outputPath.place = none

end Outcome

end ThreeAddress.Job
