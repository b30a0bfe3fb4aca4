import ThreeAddress.Proofs.Keeping

/-!
# The stages of a job

What a job does on a tree, stage by stage, and from what it follows that a stage is passed: clearing
the path of the stream (`clearStale_eq_ok_iff`), coming to the assembly (`prepare_eq_ok_iff`) and
writing it (`translate_eq_ok_iff`).
-/

namespace ThreeAddress.Job

open Files (FilePath Tree)

variable {config : Config} {frontEnd : FrontEnd (StateM Tree)} {assembly text : String}
  {t t' left written : Tree} {p file : FilePath}

/-- Where a job stages its source. -/
def Config.staged (config : Config) (id : String) : FilePath :=
  config.inputDirectory.join (stagedName id)

section Runs

theorem writeText_run (p : FilePath) (text : String) (t : Tree) :
    (Files.writeText p text : StateM Tree _) t =
      match t.write p text.toUTF8 with
      | .ok written => (.ok (), written)
      | .error e => (.error e, t) :=
  rfl

theorem remove_run (p : FilePath) (t : Tree) : (Files.Access.remove p : StateM Tree _) t =
    match t.remove p with
    | .ok cleared => (.ok (), cleared)
    | .error e => (.error e, t) :=
  rfl

/-- A stage that fails is the last one. -/
theorem bind_run {α β : Type} (x : ExceptT Failure (StateM Tree) α)
    (f : α → ExceptT Failure (StateM Tree) β) (t : Tree) : (x >>= f).run t =
      match x.run t with
      | (.error e, left) => (.error e, left)
      | (.ok a, left) => (f a).run left := by
  have hbind : (x >>= f).run t = ExceptT.bindCont f (x.run t).1 (x.run t).2 := rfl
  rw [hbind]
  rcases x.run t with ⟨_ | _, left⟩ <;> rfl

theorem mapError_run {ε α : Type} (failure : ε → Failure) (operation : StateM Tree (Except ε α))
    (t : Tree) :
    (ExceptT.mk do return (← operation).mapError failure : ExceptT Failure (StateM Tree) α).run t =
      ((operation t).1.mapError failure, (operation t).2) :=
  rfl

theorem run_eq (config : Config) (frontEnd : FrontEnd (StateM Tree)) (id source : String)
    (t : Tree) : run config frontEnd id source t =
      match (Files.makeDirectories config.inputDirectory : StateM Tree _) t with
      | (.error e, made) => (.ofResult (.error (.inputDirectory config.inputDirectory e)), made)
      | (.ok _, made) =>
        match (Files.createText (config.staged id) source : StateM Tree _) made with
        | (.error e, made) => (.ofResult (.error (.staging e)), made)
        | (.ok _, ready) =>
          match (translate config frontEnd (config.staged id)).run ready with
          | (result, left) =>
            (.ofResult result,
              ((Files.Access.remove (config.staged id) : StateM Tree _) left).2) := by
  have hrun : run config frontEnd id source t =
      (.ofResult ((compile config frontEnd id source).run t).1,
        ((compile config frontEnd id source).run t).2) := Files.bind_run (Prod.eta _).symm
  rw [hrun, compile, bind_run, attempt, mapError_run, Config.staged]
  rcases (Files.makeDirectories config.inputDirectory : StateM Tree _) t with ⟨_ | _, made⟩
  · rfl
  dsimp only [Except.mapError]
  rw [bind_run, attempt, mapError_run]
  rcases (Files.createText (config.inputDirectory.join (stagedName id)) source
    : StateM Tree _) made with ⟨_ | _, ready⟩ <;> rfl

theorem translate_run (config : Config) (frontEnd : FrontEnd (StateM Tree)) (file : FilePath)
    (t : Tree) : (translate config frontEnd file).run t =
      match (prepare config frontEnd file).run t with
      | (.error e, left) => (.error e, left)
      | (.ok assembly, left) =>
        match (Files.writeText config.outputPath assembly : StateM Tree _) left with
        | (.error e, left) => (.error (.output config.outputPath e), left)
        | (.ok _, written) => (.ok assembly, written) := by
  rw [translate_eq, bind_run]
  rcases (prepare config frontEnd file).run t with ⟨_ | assembly, left⟩
  · rfl
  dsimp only
  rw [bind_run, attempt, mapError_run]
  rcases (Files.writeText config.outputPath assembly : StateM Tree _) left with ⟨_ | _, written⟩
    <;> rfl

theorem prepare_run (config : Config) (frontEnd : FrontEnd (StateM Tree)) (file : FilePath)
    (t : Tree) : (prepare config frontEnd file).run t =
      match (clearStale config.irPath : ExceptT Failure (StateM Tree) Unit).run t with
      | (.error e, cleared) => (.error e, cleared)
      | (.ok _, cleared) =>
        match (frontEnd file config.irPath : StateM Tree _) cleared with
        | (.error message, left) => (.error (.frontEnd message), left)
        | (.ok _, left) =>
          (compileFile config.options config.irPath : ExceptT Failure (StateM Tree) String).run
            left := by
  rw [prepare, bind_run]
  rcases (clearStale config.irPath : ExceptT Failure (StateM Tree) Unit).run t
    with ⟨_ | _, cleared⟩
  · rfl
  dsimp only
  rw [bind_run, mapError_run]
  rcases (frontEnd file config.irPath : StateM Tree _) cleared with ⟨_ | _, left⟩ <;> rfl

theorem clearStale_run (p : FilePath) (t : Tree) :
    (clearStale p : ExceptT Failure (StateM Tree) Unit).run t =
      match t.remove p with
      | .ok cleared => (.ok (), cleared)
      | .error .notFound => (.ok (), t)
      | .error e => (.error (.staleIr p e), t) := by
  unfold clearStale
  simp only [bind, StateT.bind, ExceptT.run, ExceptT.mk]
  rw [remove_run]
  rcases t.remove p with e | cleared
  · cases e <;> rfl
  · rfl

theorem compileFile_run (options : Options) (p : FilePath) (t : Tree) :
    (compileFile options p : ExceptT Failure (StateM Tree) String).run t =
      match t.text p with
      | .error e => (.error (.unreadableIr p (.io e.text)), t)
      | .ok text =>
        match Program.generate options (Report.ofText p.text text).instructions with
        | .error e => (.error (.compile e), t)
        | .ok program => (.ok program.text, t) := by
  have hload : (Report.load p : StateM Tree _) t =
      match t.text p with
      | .error e => (.error (.io e.text), t)
      | .ok text => (.ok (Report.ofText p.text text), t) := by
    rw [Report.load, Files.bind_run (Files.readText_eq p t)]
    cases t.text p <;> rfl
  rw [compileFile, bind_run, mapError_run, hload]
  rcases t.text p with e | text
  · rfl
  dsimp only [Except.mapError]
  rcases Program.generate options (Report.ofText p.text text).instructions with e | program <;> rfl

end Runs

section Passing

/-- What stood at the path is gone, or nothing did. -/
def Cleared (p : FilePath) (t t' : Tree) : Prop :=
  t.remove p = .ok t' ∨ t.remove p = .error .notFound ∧ t' = t

theorem writeText_eq_ok_iff :
    (Files.writeText p text : StateM Tree _) t = (.ok (), t')
      ↔ t.write p text.toUTF8 = .ok t' := by
  rw [writeText_run]
  cases t.write p text.toUTF8 with
  | error e => exact ⟨nofun, nofun⟩
  | ok u => exact ⟨fun h => by cases h; rfl, fun h => by cases h; rfl⟩

/-- A file is made where nothing can be found. -/
theorem createText_run (p : FilePath) (text : String) (t : Tree) :
    (Files.createText p text : StateM Tree _) t =
      match t.find false p with
      | .ok _ => (.error .alreadyExists, t)
      | .error .notFound => (Files.writeText p text : StateM Tree _) t
      | .error e => (.error e, t) := by
  rw [Files.createText, Files.bind_run (Files.isOccupied_eq p t)]
  cases t.find false p with
  | ok found => rfl
  | error e => cases e <;> rfl

theorem createText_eq_ok_iff :
    (Files.createText p text : StateM Tree _) t = (.ok (), t')
      ↔ t.find false p = .error .notFound ∧ t.write p text.toUTF8 = .ok t' := by
  rw [createText_run]
  cases t.find false p with
  | ok found => exact ⟨nofun, nofun⟩
  | error e =>
    cases e with
    | notFound =>
      rw [and_iff_right rfl]
      exact writeText_eq_ok_iff
    | _ => exact ⟨nofun, nofun⟩

theorem eq_of_writeText_error {e : Files.Error}
    (h : (Files.writeText p text : StateM Tree _) t = (.error e, t')) : t' = t := by
  rw [writeText_run] at h
  cases hw : t.write p text.toUTF8 with
  | error e => rw [hw] at h; cases h; rfl
  | ok u => rw [hw] at h; cases h

theorem eq_of_createText_error {e : Files.Error}
    (h : (Files.createText p text : StateM Tree _) t = (.error e, t')) : t' = t := by
  rw [createText_run] at h
  cases hfind : t.find false p with
  | ok found =>
    rw [hfind] at h
    cases h
    rfl
  | error e' =>
    rw [hfind] at h
    cases e' with
    | notFound => exact eq_of_writeText_error h
    | _ =>
      cases h
      rfl

theorem clearStale_eq_ok_iff :
    (clearStale p : ExceptT Failure (StateM Tree) Unit).run t = (.ok (), t')
      ↔ Cleared p t t' := by
  rw [clearStale_run, Cleared]
  cases t.remove p with
  | ok cleared =>
    constructor
    · rintro ⟨⟩
      exact .inl rfl
    · rintro (⟨⟨⟩⟩ | ⟨⟨⟩, -⟩)
      rfl
  | error e =>
    constructor
    · intro h
      cases e with
      | notFound => cases h; exact .inr ⟨rfl, rfl⟩
      | _ => cases h
    · rintro (⟨⟨⟩⟩ | ⟨⟨⟩, rfl⟩)
      rfl

theorem compileFile_eq_ok_iff {options : Options} :
    (compileFile options p : ExceptT Failure (StateM Tree) String).run t = (.ok assembly, t')
      ↔ ∃ text program, t.text p = .ok text
        ∧ Program.generate options (Report.ofText p.text text).instructions = .ok program
        ∧ program.text = assembly ∧ t = t' := by
  rw [compileFile_run]
  constructor
  · intro h
    cases htext : t.text p with
    | error e => rw [htext] at h; cases h
    | ok text =>
      rw [htext] at h
      dsimp only at h
      cases hp : Program.generate options (Report.ofText p.text text).instructions with
      | error e => rw [hp] at h; cases h
      | ok program =>
        rw [hp] at h
        cases h
        exact ⟨text, program, rfl, hp, rfl, rfl⟩
  · rintro ⟨text, program, htext, hp, rfl, rfl⟩
    rw [htext]
    dsimp only
    rw [hp]

theorem prepare_eq_ok_iff : (prepare config frontEnd file).run t = (.ok assembly, left)
    ↔ ∃ cleared text program, Cleared config.irPath t cleared
      ∧ (frontEnd file config.irPath : StateM Tree _) cleared = (.ok (), left)
      ∧ left.text config.irPath = .ok text
      ∧ Program.generate config.options (Report.ofText config.irPath.text text).instructions
        = .ok program
      ∧ program.text = assembly := by
  rw [prepare_run]
  constructor
  · intro h
    rcases hclear : (clearStale config.irPath : ExceptT Failure (StateM Tree) Unit).run t
      with ⟨_ | _, cleared⟩
    · rw [hclear] at h
      cases h
    rw [hclear] at h
    dsimp only at h
    rcases hleft : (frontEnd file config.irPath : StateM Tree _) cleared with ⟨_ | _, left'⟩
    · rw [hleft] at h
      cases h
    rw [hleft] at h
    obtain ⟨text, program, htext, hprogram, rfl, rfl⟩ := compileFile_eq_ok_iff.1 h
    exact ⟨cleared, text, program, clearStale_eq_ok_iff.1 hclear, hleft, htext, hprogram, rfl⟩
  · rintro ⟨cleared, text, program, hclear, hleft, htext, hprogram, rfl⟩
    rw [clearStale_eq_ok_iff.2 hclear]
    dsimp only
    rw [hleft]
    exact compileFile_eq_ok_iff.2 ⟨text, program, htext, hprogram, rfl, rfl⟩

theorem translate_eq_ok_iff :
    (translate config frontEnd file).run t = (.ok assembly, written)
      ↔ ∃ left, (prepare config frontEnd file).run t = (.ok assembly, left)
        ∧ left.write config.outputPath assembly.toUTF8 = .ok written := by
  rw [translate_run]
  constructor
  · intro h
    rcases hprepare : (prepare config frontEnd file).run t with ⟨_ | text, left⟩
    · rw [hprepare] at h
      cases h
    rw [hprepare] at h
    dsimp only at h
    rcases hwrite : (Files.writeText config.outputPath text : StateM Tree _) left
      with ⟨_ | _, written'⟩
    · rw [hwrite] at h
      cases h
    rw [hwrite] at h
    cases h
    exact ⟨left, rfl, writeText_eq_ok_iff.1 hwrite⟩
  · rintro ⟨left, hprepare, hwrite⟩
    rw [hprepare]
    dsimp only
    rw [writeText_eq_ok_iff.2 hwrite]

/-- What is cleared cannot be read. -/
theorem unread_of_cleared (ht : t.Plain) (h : Cleared p t t') (old : String) :
    t'.text p ≠ .ok old := by
  refine Tree.text_ne_ok (fun c => ?_) old
  rcases h with h | ⟨h, rfl⟩
  · obtain ⟨hleads, -, ⟨c', hc'⟩, rfl⟩ := ht.remove_eq_ok_iff.1 h
    have hne := hleads.place_ne_nil
    have hleft : (t.erase p.place).Leads p :=
      hleads.mono fun _ hr => Tree.isDirectoryAt_erase hne hc' hr
    refine hleft.read_ne_ok (ht.erase hne) ?_
    rw [Tree.get?_erase_of_ne_nil hne, if_pos rfl]
  · exact ht.read_ne_ok h

end Passing

end ThreeAddress.Job
