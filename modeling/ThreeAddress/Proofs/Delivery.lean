import ThreeAddress.Cli.Commands
import ThreeAddress.Compilation
import ThreeAddress.Proofs.Renaming
import ThreeAddress.Proofs.Stages
import ThreeAddress.Proofs.Writing

/-!
# What `generate` delivers

To compile a file is to read it and to compile its text, which leaves the tree as it is
(`compileFile_cases`). So `generate` ends in one of three ways: with the assembly in its output,
with the assembly at the output path, or with a message and an unchanged tree
(`run_generate_cases`). Both forms give the same assembly, and a failure gives no part of it
(`generate_all_or_nothing`).
-/

namespace ThreeAddress.Cli

open Files (FilePath Tree)
open Job (Failure)

variable {t left : Tree} {input output : FilePath} {options : Options} {assembly : String}

section Compiling

/-- The path leads to a text that compiles to this assembly. -/
def Compiles (t : Tree) (input : FilePath) (options : Options) (assembly : String) : Prop :=
  ∃ source, t.text input = .ok source ∧ Compilation.compile options source = .ok assembly

theorem Compiles.unique {other : String} (h : Compiles t input options assembly)
    (h' : Compiles t input options other) : other = assembly := by
  obtain ⟨source, hsource, hcompile⟩ := h
  obtain ⟨source', hsource', hcompile'⟩ := h'
  cases hsource.symm.trans hsource'
  exact Except.ok.inj (hcompile'.symm.trans hcompile)

theorem compile_eq_ok_iff {source : String} :
    Compilation.compile options source = .ok assembly ↔ ∃ p,
      Program.generate options (Instruction.ofText source) = .ok p ∧ p.text = assembly := by
  unfold Compilation.compile
  cases Program.generate options (Instruction.ofText source) with
  | error e => simp [Except.map]
  | ok p => simp [Except.map]

theorem compileFile_eq_ok_iff :
    (Job.compileFile options input : ExceptT Failure (StateM Tree) String).run t
      = (.ok assembly, left) ↔ Compiles t input options assembly ∧ left = t := by
  rw [Job.compileFile_eq_ok_iff]
  constructor
  · rintro ⟨source, p, hsource, hp, rfl, rfl⟩
    obtain ⟨p', hp', htext⟩ := Program.exists_generate_ofText "<input>" hp
    exact ⟨⟨source, hsource, compile_eq_ok_iff.2 ⟨p', hp', htext⟩⟩, rfl⟩
  · rintro ⟨⟨source, hsource, hcompile⟩, rfl⟩
    obtain ⟨p, hp, rfl⟩ := compile_eq_ok_iff.1 hcompile
    obtain ⟨p', hp', htext⟩ := Program.exists_generate_ofText input.text hp
    exact ⟨source, p', hsource, hp', htext, rfl⟩

/-- Compiling reads the tree and leaves it as it is. -/
theorem compileFile_cases (options : Options) (input : FilePath) (t : Tree) :
    (∃ assembly, Compiles t input options assembly
        ∧ (Job.compileFile options input : ExceptT Failure (StateM Tree) String).run t
          = (.ok assembly, t))
      ∨ (∀ assembly, ¬ Compiles t input options assembly)
        ∧ ∃ e, (Job.compileFile options input : ExceptT Failure (StateM Tree) String).run t
          = (.error e, t) := by
  have hleft : ((Job.compileFile options input : ExceptT Failure (StateM Tree) String).run t).2
      = t := by
    rw [Job.compileFile_run]
    split
    · rfl
    · split <;> rfl
  rcases hrun : (Job.compileFile options input : ExceptT Failure (StateM Tree) String).run t
    with ⟨e | assembly, left⟩
  · rw [hrun] at hleft
    cases hleft
    refine .inr ⟨fun assembly h => ?_, e, rfl⟩
    cases hrun.symm.trans (compileFile_eq_ok_iff.2 ⟨h, rfl⟩)
  · obtain ⟨h, rfl⟩ := compileFile_eq_ok_iff.1 hrun
    exact .inl ⟨assembly, h, rfl⟩

theorem generate_run (input : FilePath) (output : Option FilePath) (options : Options) (t : Tree) :
    (generate input output options : ExceptT Failure (StateM Tree) String).run t =
      match (Job.compileFile options input : ExceptT Failure (StateM Tree) String).run t,
        output with
      | (.error e, left), _ => (.error e, left)
      | (.ok assembly, left), none => (.ok assembly, left)
      | (.ok assembly, left), some p =>
        match left.write p assembly.toUTF8 with
        | .error e => (.error (.output p e), left)
        | .ok written => (.ok ("ARMv8 code written to " ++ p.text ++ ".\n"), written) := by
  rw [generate, Job.bind_run]
  rcases (Job.compileFile options input : ExceptT Failure (StateM Tree) String).run t
    with ⟨_ | assembly, left⟩
  · rfl
  cases output with
  | none => rfl
  | some p =>
    dsimp only
    rw [Job.bind_run, Job.attempt, Job.mapError_run, Job.writeText_run]
    rcases left.write p assembly.toUTF8 with _ | written <;> rfl

end Compiling

section Generating

theorem failed_generating (message : String) : Outcome.failed "generating assembly" message
    = ⟨1, "", "Error generating assembly: " ++ (message ++ "\n")⟩ := by
  rw [Outcome.failed, ← String.append_assoc]
  rfl

variable [Job.Programs (StateM Tree)]

theorem run_generate {words : List String} {verbose lenient toStdout : Bool}
    (h : Arguments.ofList words = .ok ⟨verbose, .generate input output lenient toStdout⟩)
    (id : String) (t : Tree) : (run id words : StateM Tree Outcome) t =
      match (generate input (if toStdout then none else some output) ⟨!lenient, "_start"⟩ :
        ExceptT Failure (StateM Tree) String).run t with
      | (.ok text, left) => (⟨0, text, ""⟩, left)
      | (.error e, left) => (.failed "generating assembly" e.message, left) := by
  rw [run, h]
  simp only [runCommand, runGenerate, bind, StateT.bind, Options.default]
  rcases (generate input (if toStdout then none else some output) ⟨!lenient, "_start"⟩ :
    ExceptT Failure (StateM Tree) String).run t with ⟨_ | _, left⟩ <;> rfl

/-- The ways that `generate` can end. -/
theorem run_generate_cases {words : List String} {verbose lenient toStdout : Bool}
    (h : Arguments.ofList words = .ok ⟨verbose, .generate input output lenient toStdout⟩)
    (id : String) (t : Tree) :
    (∃ assembly, Compiles t input ⟨!lenient, "_start"⟩ assembly
        ∧ (toStdout = true ∧ (run id words : StateM Tree Outcome) t = (⟨0, assembly, ""⟩, t)
          ∨ toStdout = false ∧ ∃ left, t.write output assembly.toUTF8 = .ok left
            ∧ (run id words : StateM Tree Outcome) t
              = (⟨0, "ARMv8 code written to " ++ output.text ++ ".\n", ""⟩, left)))
      ∨ ((∀ assembly, Compiles t input ⟨!lenient, "_start"⟩ assembly →
          toStdout = false ∧ ∀ left, t.write output assembly.toUTF8 ≠ .ok left)
        ∧ ∃ message, (run id words : StateM Tree Outcome) t
          = (⟨1, "", "Error generating assembly: " ++ message⟩, t)) := by
  rw [run_generate h, generate_run]
  rcases compileFile_cases ⟨!lenient, "_start"⟩ input t with
    ⟨assembly, hcompiles, hrun⟩ | ⟨hnone, e, hrun⟩
  · rw [hrun]
    cases toStdout with
    | true => exact .inl ⟨assembly, hcompiles, .inl ⟨rfl, rfl⟩⟩
    | false =>
      rw [if_neg Bool.false_ne_true]
      dsimp only
      rcases hwrite : t.write output assembly.toUTF8 with e | left
      · refine .inr ⟨fun other hother => ⟨rfl, fun left hleft => ?_⟩, _,
          congrArg (·, t) (failed_generating (Failure.output output e).message)⟩
        cases hcompiles.unique hother
        cases hwrite.symm.trans hleft
      · exact .inl ⟨assembly, hcompiles, .inr ⟨rfl, left, hwrite, rfl⟩⟩
  · rw [hrun]
    exact .inr ⟨fun assembly h => absurd h (hnone assembly), _,
      congrArg (·, t) (failed_generating e.message)⟩

/-- To standard output, `generate` prints the assembly of the input if there is one, and the tree
stays as it is. Without that it succeeds if there is one and the output path can be written. Then
what stands there changes and nothing else, and unless it is a device, it is the same assembly, also
at the path of the input. In all other cases the tree stays as it is and there is only a message. -/
theorem generate_all_or_nothing {words : List String} {verbose lenient toStdout : Bool}
    (h : Arguments.ofList words = .ok ⟨verbose, .generate input output lenient toStdout⟩)
    (id : String) (t : Tree) {outcome : Outcome}
    (hrun : (run id words : StateM Tree Outcome) t = (outcome, left)) :
    let options : Options := ⟨!lenient, "_start"⟩
    (toStdout = true →
      left = t
      ∧ (outcome.status = 0 ↔ ∃ assembly, Compiles t input options assembly)
      ∧ ∀ assembly, Compiles t input options assembly → outcome = ⟨0, assembly, ""⟩)
    ∧ (toStdout = false →
      (outcome.status = 0 ↔ ∃ assembly t', Compiles t input options assembly
        ∧ t.write output assembly.toUTF8 = .ok t')
      ∧ ∀ assembly, Compiles t input options assembly → outcome.status = 0 →
        outcome = ⟨0, "ARMv8 code written to " ++ output.text ++ ".\n", ""⟩
        ∧ ∃ q, t.newPlace true output = .ok q ∧ t.SameBut q left
          ∧ ((∀ d, t.get? q ≠ some (.device d)) →
            left.get? q = some (.file assembly.toUTF8)
            ∧ (t.Coherent → (∀ r ∈ t.namesOf q, left.get? r = some (.file assembly.toUTF8))
              ∧ left.text output = .ok assembly)))
    ∧ (outcome.status ≠ 0 → left = t
      ∧ ∃ message, outcome = ⟨1, "", "Error generating assembly: " ++ message⟩) := by
  intro options
  rcases run_generate_cases h id t with
    ⟨assembly, hcompiles, ⟨rfl, hcase⟩ | ⟨rfl, t', hwrite, hcase⟩⟩ | ⟨hnot, message, hcase⟩
  · cases hrun.symm.trans hcase
    refine ⟨fun _ => ⟨rfl, iff_of_true rfl ⟨assembly, hcompiles⟩, fun other hother => ?_⟩, nofun,
      fun hstatus => absurd rfl hstatus⟩
    rw [hcompiles.unique hother]
  · cases hrun.symm.trans hcase
    refine ⟨nofun, fun _ => ⟨iff_of_true rfl ⟨assembly, left, hcompiles, hwrite⟩,
      fun other hother _ => ⟨rfl, ?_⟩⟩, fun hstatus => absurd rfl hstatus⟩
    cases hcompiles.unique hother
    obtain ⟨q, hq, hsame⟩ := Tree.sameBut_of_write hwrite
    refine ⟨q, hq, hsame, fun hdevice => ⟨Tree.get?_of_write hwrite hq hdevice, fun ht => ?_⟩⟩
    obtain ⟨hnames, hread⟩ := ht.of_write hwrite hq hdevice
    exact ⟨hnames, Tree.text_of_read hread⟩
  · cases hrun.symm.trans hcase
    refine ⟨?_, ?_, fun _ => ⟨rfl, message, rfl⟩⟩
    · rintro rfl
      refine ⟨rfl, iff_of_false Nat.one_ne_zero ?_, fun assembly h => ?_⟩
      · rintro ⟨assembly, h⟩
        cases (hnot assembly h).1
      · cases (hnot assembly h).1
    · rintro rfl
      refine ⟨iff_of_false Nat.one_ne_zero ?_, fun assembly h hstatus => ?_⟩
      · rintro ⟨assembly, t', h, hwrite⟩
        exact (hnot assembly h).2 t' hwrite
      · cases hstatus

end Generating

section Linked

/-- No program can be started. -/
@[reducible]
def noPrograms : Job.Programs (StateM Tree) := ⟨fun _ _ => pure (.error .notFound)⟩

/-- The stream has two names, and a link points to one of them. -/
def linked : Tree where
  nodes :=
    [(["tmp", "work"], .directory),
      (["tmp", "work", "ir"], .file "0\t(PRINT, #5, , )\n".toUTF8),
      (["tmp", "work", "copy"], .file "0\t(PRINT, #5, , )\n".toUTF8),
      (["tmp", "work", "link"], .link ⟨"./ir"⟩)]
  shared := [[["tmp", "work", "ir"], ["tmp", "work", "copy"]]]
  changes := []

theorem coherent_linked : linked.Coherent := by
  intro group hgroup
  cases List.mem_singleton.1 hgroup
  refine ⟨.file "0\t(PRINT, #5, , )\n".toUTF8, nofun, fun q hq => ?_⟩
  simp only [List.mem_cons, List.not_mem_nil, or_false] at hq
  rcases hq with rfl | rfl <;> rfl

theorem lead_linked (links : Nat) :
    linked.lead true links Tree.workingPlace ["ir"] = .ok (Tree.workingPlace, "ir") := by
  rw [Tree.lead]
  rfl

theorem approach_link : linked.approach true ⟨"link"⟩ = .ok (Tree.workingPlace, "ir") :=
  calc linked.approach true ⟨"link"⟩
    _ = linked.lead true 40 Tree.workingPlace ["link"] := rfl
    _ = linked.lead true 39 Tree.workingPlace [".", "ir"] := by rw [Tree.lead]; rfl
    _ = linked.lead true 39 Tree.workingPlace ["ir"] := by rw [Tree.lead]; rfl
    _ = .ok (Tree.workingPlace, "ir") := lead_linked 39

theorem compiles_linked : ∃ assembly, Compiles linked ⟨"ir"⟩ ⟨true, "_start"⟩ assembly := by
  have happroach : linked.approach true ⟨"ir"⟩ = .ok (Tree.workingPlace, "ir") := lead_linked 40
  have hread : linked.read ⟨"ir"⟩ = .ok "0\t(PRINT, #5, , )\n".toUTF8 := by
    rw [Tree.read, Tree.find_of_approach happroach]
    rfl
  exact ⟨_, _, Tree.text_of_read hread,
    compile_eq_ok_iff.2 ⟨_, Program.generate_of_faultless (by decide), rfl⟩⟩

/-- The link leads to the input, which is replaced under both of its names. -/
theorem generate_all_or_nothing_linked :
    Arguments.ofList ["-v", "generate", "ir", "-olink"]
        = .ok ⟨true, .generate ⟨"ir"⟩ ⟨"link"⟩ false false⟩
      ∧ ∃ outcome left assembly,
        (@run (StateM Tree) _ _ noPrograms "1" ["-v", "generate", "ir", "-olink"]) linked
          = (outcome, left)
        ∧ Compiles linked ⟨"ir"⟩ ⟨true, "_start"⟩ assembly
        ∧ outcome = ⟨0, "ARMv8 code written to link.\n", ""⟩
        ∧ left.get? ["tmp", "work", "copy"] = some (.file assembly.toUTF8)
        ∧ left.get? ["tmp", "work", "link"] = some (.link ⟨"./ir"⟩)
        ∧ left.text ⟨"link"⟩ = .ok assembly := by
  have hwords : Arguments.ofList ["-v", "generate", "ir", "-olink"]
      = .ok ⟨true, .generate ⟨"ir"⟩ ⟨"link"⟩ false false⟩ := by
    decide
  obtain ⟨assembly, hcompiles⟩ := compiles_linked
  have hwrite : ∃ t', linked.write ⟨"link"⟩ assembly.toUTF8 = .ok t' := by
    rw [Tree.write_of_approach approach_link]
    exact ⟨_, rfl⟩
  let _ := noPrograms
  obtain ⟨-, hfile, -⟩ := generate_all_or_nothing hwords "1" linked rfl
  obtain ⟨hstatus, heffect⟩ := hfile rfl
  obtain ⟨t', ht'⟩ := hwrite
  obtain ⟨hout, q, hq, hsame, hreplaced⟩ :=
    heffect assembly hcompiles (hstatus.2 ⟨assembly, t', hcompiles, ht'⟩)
  rw [Tree.newPlace_of_approach approach_link] at hq
  cases hq
  obtain ⟨-, hread⟩ := hreplaced fun d h => by cases h
  obtain ⟨hnames, htext⟩ := hread coherent_linked
  exact ⟨hwords, _, _, assembly, rfl, hcompiles, hout, hnames _ (by decide),
    hsame.nodes _ (by decide), htext⟩

end Linked

end ThreeAddress.Cli
