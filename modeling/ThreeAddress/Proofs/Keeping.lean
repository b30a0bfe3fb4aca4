import ThreeAddress.Job.Compile
import ThreeAddress.Proofs.PlainTree

/-!
# What jobs keep

A relation of trees that the file operations of a job keep is kept by all that is made of them: by
the making of directories (`keeps_makeDirectories`), by a front end that only translates
(`Translation.keeps`), and by the steps of a job (`takes_prepare`, `takes_translate`). A translation
reads the staged source and writes streams at the configured path, in any order, until it has an
answer.
-/

namespace ThreeAddress

namespace Files

variable {α β : Type} {R R' R'' : Tree → Tree → Prop} {I : Tree → Prop} {x : StateM Tree α}
  {f : α → StateM Tree β} {p : FilePath}

/-- From trees in the first relation an operation has the same result, and ends in trees in the
second. -/
def Takes (R R' : Tree → Tree → Prop) (x : StateM Tree α) : Prop :=
  ∀ t u, R t u → (x t).1 = (x u).1 ∧ R' (x t).2 (x u).2

abbrev Keeps (R : Tree → Tree → Prop) (x : StateM Tree α) : Prop := Takes R R x

/-- The relation of a tree to itself if it has the property. -/
def Sole (I : Tree → Prop) (t u : Tree) : Prop := t = u ∧ I t

theorem keeps_sole_iff : Keeps (Sole I) x ↔ ∀ t, I t → I (x t).2 := by
  constructor
  · intro h t ht
    exact (h t t ⟨rfl, ht⟩).2.2
  · rintro h t u ⟨rfl, ht⟩
    exact ⟨rfl, rfl, h t ht⟩

theorem Takes.pure (a : α) : Takes R R (pure a) := fun _ _ h => ⟨rfl, h⟩

theorem Takes.bind (hx : Takes R R' x) (hf : ∀ a, Takes R' R'' (f a)) : Takes R R'' (x >>= f) := by
  intro t u h
  obtain ⟨hresult, htrees⟩ := hx t u h
  have hnext := hf (x t).1 _ _ htrees
  change (f (x t).1 (x t).2).1 = (f (x u).1 (x u).2).1
    ∧ R'' (f (x t).1 (x t).2).2 (f (x u).1 (x u).2).2
  rwa [← hresult]

theorem bind_run {a : α} {t t' : Tree} (h : x t = (a, t')) : (x >>= f) t = f a t' := by
  change f (x t).1 (x t).2 = _
  rw [h]

theorem Takes.weaken (hx : Takes R R' x) (h : ∀ t u, R' t u → R'' t u) : Takes R R'' x :=
  fun t u htu => ⟨(hx t u htu).1, h _ _ (hx t u htu).2⟩

/-- An operation that changes the tree or fails. -/
theorem keeps_change {g : Tree → Except Error Tree}
    (hresult : ∀ t u, R t u → (g t).map (fun _ => ()) = (g u).map fun _ => ())
    (htrees : ∀ t u t' u', R t u → g t = .ok t' → g u = .ok u' → R t' u') :
    Keeps R (Tree.change g) := by
  intro t u h
  have hsame := hresult t u h
  have hafter := htrees t u
  unfold Tree.change
  cases ht : g t with
  | error e =>
    cases hu : g u with
    | error e' =>
      rw [ht, hu] at hsame
      cases hsame
      exact ⟨rfl, h⟩
    | ok u' => rw [ht, hu] at hsame; cases hsame
  | ok t' =>
    cases hu : g u with
    | error e' => rw [ht, hu] at hsame; cases hsame
    | ok u' => exact ⟨rfl, hafter t' u' h ht hu⟩

/-- The text at a path, or why there is none. -/
def Tree.text (t : Tree) (p : FilePath) : Except Error String := do
  match String.fromUTF8? (← t.read p) with
  | some text => .ok text
  | none => .error .notText

theorem Tree.text_ne_ok {t : Tree} (h : ∀ c, t.read p ≠ .ok c) (s : String) : t.text p ≠ .ok s := by
  intro hs
  unfold Tree.text at hs
  cases hread : t.read p with
  | error e => rw [hread] at hs; cases hs
  | ok c => exact h c hread

theorem Tree.text_of_read {t : Tree} {s : String} (h : t.read p = .ok s.toUTF8) :
    t.text p = .ok s := by
  have hs : String.fromUTF8? s.toUTF8 = some s := dif_pos s.isValidUTF8
  unfold Tree.text
  rw [h]
  change (match String.fromUTF8? s.toUTF8 with | some text => _ | none => _) = _
  rw [hs]

theorem readText_eq (p : FilePath) (t : Tree) : (readText p : StateM Tree _) t = (t.text p, t) := by
  have hread : (Access.read p : StateM Tree _) t = (t.read p, t) := rfl
  rw [readText, bind_run hread, Tree.text]
  cases t.read p with
  | error e => rfl
  | ok bytes =>
    change (match String.fromUTF8? bytes with | some text => _ | none => _ : StateM Tree _) t
      = (match String.fromUTF8? bytes with | some text => _ | none => _, t)
    cases String.fromUTF8? bytes <;> rfl

theorem keeps_readText (h : ∀ t u, R t u → t.read p = u.read p) :
    Keeps R (readText p : StateM Tree _) := by
  intro t u htu
  rw [readText_eq, readText_eq, Tree.text, Tree.text, h t u htu]
  exact ⟨rfl, htu⟩

theorem isOccupied_eq (p : FilePath) (t : Tree) : (isOccupied p : StateM Tree _) t =
    (match t.find false p with
      | .ok _ => .ok true
      | .error .notFound => .ok false
      | .error e => .error e, t) := by
  have hstatus : (Access.status false p : StateM Tree _) t = (t.status false p, t) := rfl
  rw [isOccupied, bind_run hstatus, Tree.status]
  cases t.find false p with
  | ok found => rfl
  | error e => cases e <;> rfl

theorem keeps_isOccupied (h : ∀ t u, R t u → t.find false p = u.find false p) :
    Keeps R (isOccupied p : StateM Tree _) := by
  intro t u htu
  rw [isOccupied_eq, isOccupied_eq, h t u htu]
  exact ⟨rfl, htu⟩

theorem keeps_createText {text : String} (hoccupied : Keeps R (isOccupied p : StateM Tree _))
    (hwrite : Keeps R (writeText p text : StateM Tree _)) :
    Keeps R (createText p text : StateM Tree _) := by
  refine hoccupied.bind fun result => ?_
  rcases result with e | _ | _
  · exact Takes.pure _
  · exact hwrite
  · exact Takes.pure _

theorem keeps_ensureDirectory (hmake : Keeps R (Access.makeDirectory p : StateM Tree _))
    (hdir : Keeps R (isDirectory p)) : Keeps R (ensureDirectory p : StateM Tree _) := by
  refine hmake.bind fun result => ?_
  cases result with
  | ok _ => exact Takes.pure _
  | error e =>
    refine hdir.bind fun there => ?_
    cases there with
    | true => exact Takes.pure _
    | false => exact Takes.pure _

theorem keeps_ensureDirectories {above : List FilePath}
    (hmake : ∀ a ∈ p :: above, Keeps R (Access.makeDirectory a : StateM Tree _))
    (hdir : ∀ a ∈ p :: above, Keeps R (isDirectory a)) :
    Keeps R (ensureDirectories p above : StateM Tree _) := by
  have hself := keeps_ensureDirectory (hmake p List.mem_cons_self) (hdir p List.mem_cons_self)
  induction above generalizing p with
  | nil =>
    unfold ensureDirectories
    split
    · exact Takes.pure _
    · refine hself.bind fun result => ?_
      split <;> exact Takes.pure _
  | cons a above ih =>
    have habove := ih (fun b hb => hmake b (List.mem_cons_of_mem p hb))
      (fun b hb => hdir b (List.mem_cons_of_mem p hb))
      (keeps_ensureDirectory (hmake a (by simp)) (hdir a (by simp)))
    unfold ensureDirectories
    refine hself.bind fun result => ?_
    split
    · refine habove.bind fun result => ?_
      cases result with
      | error e => exact Takes.pure _
      | ok _ => exact hself
    · exact Takes.pure _

theorem keeps_makeDirectories
    (hmake : ∀ a ∈ p :: p.above, Keeps R (Access.makeDirectory a : StateM Tree _))
    (hdir : ∀ a ∈ p :: p.above, Keeps R (isDirectory a)) :
    Keeps R (makeDirectories p : StateM Tree _) :=
  keeps_ensureDirectories hmake hdir

end Files

namespace Job

open Files (FilePath Tree Takes Keeps)

/-- What a front end does from some point on, and its answer in the end. -/
inductive Translation where
  | done (answer : Except String Unit)
  /-- Reads the staged source. -/
  | read (next : Except Files.Error String → Translation)
  /-- Writes a stream at the configured path, after making what is above it if it is to be made. -/
  | write (makingParent : Bool) (text : String) (next : Except Files.Error Unit → Translation)

namespace Translation

variable {m : Type → Type} [Monad m] [Files.Access m]

def deliver (makingParent : Bool) (p : FilePath) (text : String) : m (Except Files.Error Unit) := do
  match makingParent, p.above with
  | true, directory :: _ =>
    match ← Files.makeDirectories directory with
    | .error e => return .error e
    | .ok () => Files.writeText p text
  | _, _ => Files.writeText p text

def frontEnd : Translation → FrontEnd m
  | done answer, _, _ => return answer
  | read next, staged, irPath => do (next (← Files.readText staged)).frontEnd staged irPath
  | write makingParent text next, staged, irPath => do
    (next (← deliver makingParent irPath text)).frontEnd staged irPath

/-- A translation that never writes. -/
def Silent : Translation → Prop
  | done _ => True
  | read next => ∀ result, (next result).Silent
  | write .. => False

variable {R : Tree → Tree → Prop} {staged irPath : FilePath}

theorem keeps_deliver (makingParent : Bool) (text : String)
    (hmake : ∀ a, Keeps R (Files.Access.makeDirectory a : StateM Tree _))
    (hdir : ∀ a, Keeps R (Files.isDirectory a))
    (hwrite : Keeps R (Files.writeText irPath text : StateM Tree _)) :
    Keeps R (deliver makingParent irPath text : StateM Tree _) := by
  unfold deliver
  split
  · refine Takes.bind (Files.keeps_makeDirectories (fun a _ => hmake a) fun a _ => hdir a) ?_
    intro result
    cases result with
    | error e => exact Takes.pure _
    | ok _ => exact hwrite
  · exact hwrite

theorem keeps (hread : Keeps R (Files.readText staged : StateM Tree _))
    (hmake : ∀ a, Keeps R (Files.Access.makeDirectory a : StateM Tree _))
    (hdir : ∀ a, Keeps R (Files.isDirectory a))
    (hwrite : ∀ text, Keeps R (Files.writeText irPath text : StateM Tree _)) (x : Translation) :
    Keeps R (x.frontEnd staged irPath : StateM Tree _) := by
  induction x with
  | done answer => exact Takes.pure answer
  | read next ih => exact hread.bind ih
  | write makingParent text next ih =>
    exact (keeps_deliver makingParent text hmake hdir (hwrite text)).bind ih

theorem Silent.keeps {x : Translation} (h : x.Silent)
    (hread : Keeps R (Files.readText staged : StateM Tree _)) :
    Keeps R (x.frontEnd staged irPath : StateM Tree _) := by
  induction x with
  | done answer => exact Takes.pure answer
  | read next ih => exact hread.bind fun result => ih result (h result)
  | write makingParent text next ih => exact h.elim

end Translation

section Steps

variable {R R' : Tree → Tree → Prop} {α β : Type} {x : ExceptT Failure (StateM Tree) α}
  {f : α → ExceptT Failure (StateM Tree) β} {config : Config} {frontEnd : FrontEnd (StateM Tree)}
  {p file : FilePath}

theorem takes_bind (hx : Takes R R' x.run) (hf : ∀ a, Keeps R' (f a).run) :
    Takes R R' (x >>= f).run := by
  rw [ExceptT.run_bind]
  refine hx.bind fun result => ?_
  cases result with
  | error e => exact Takes.pure _
  | ok a => exact hf a

theorem keeps_mapError {ε : Type} {operation : StateM Tree (Except ε α)} (h : Keeps R operation)
    (g : ε → Failure) :
    Keeps R (ExceptT.run (ExceptT.mk do return (← operation).mapError g)) :=
  h.bind fun _ => Takes.pure _

theorem keeps_clearStale (h : Keeps R (Files.Access.remove p : StateM Tree _)) :
    Keeps R (clearStale p : ExceptT Failure (StateM Tree) Unit).run := by
  refine h.bind fun result => ?_
  split <;> exact Takes.pure _

theorem keeps_compileFile {options : Options} (h : Keeps R (Files.readText p : StateM Tree _)) :
    Keeps R (compileFile options p : ExceptT Failure (StateM Tree) String).run := by
  refine takes_bind (keeps_mapError (h.bind fun result => ?_) _) fun report => ?_
  · cases result with
    | error e => exact Takes.pure _
    | ok text => exact Takes.pure _
  · split
    · exact Takes.pure _
    · exact Takes.pure _

/-- What comes before the output is written. -/
def prepare {m : Type → Type} [Monad m] [Files.Access m] (config : Config) (frontEnd : FrontEnd m)
    (staged : FilePath) : ExceptT Failure m String := do
  clearStale config.irPath
  ExceptT.mk do return (← frontEnd staged config.irPath).mapError .frontEnd
  compileFile config.options config.irPath

theorem translate_eq : translate config frontEnd file = (do
    let assembly ← prepare config frontEnd file
    attempt (.output config.outputPath) (Files.writeText config.outputPath assembly)
    return assembly) := by
  simp only [translate, prepare, bind_assoc]

theorem takes_prepare
    (hclear : Takes R R' (clearStale config.irPath : ExceptT Failure (StateM Tree) Unit).run)
    (hfrontEnd : Keeps R' (frontEnd file config.irPath))
    (hread : Keeps R' (Files.readText config.irPath : StateM Tree _)) :
    Takes R R' (prepare config frontEnd file).run :=
  takes_bind hclear fun _ =>
    takes_bind (keeps_mapError hfrontEnd _) fun _ => keeps_compileFile hread

theorem takes_translate (hprepare : Takes R R' (prepare config frontEnd file).run)
    (hwrite : ∀ text, Keeps R' (Files.writeText config.outputPath text : StateM Tree _)) :
    Takes R R' (translate config frontEnd file).run := by
  rw [translate_eq]
  exact takes_bind hprepare fun assembly =>
    takes_bind (keeps_mapError (hwrite assembly) _) fun _ => Takes.pure _

/-- Between staging and the removal of the staged file a job may be in a relation of its own. -/
theorem keeps_run {id source : String}
    (hmake : Keeps R (Files.makeDirectories config.inputDirectory : StateM Tree _))
    (hstage : Keeps R (Files.createText (config.inputDirectory.join (stagedName id)) source
      : StateM Tree _))
    (htranslate : Takes R R'
      (translate config frontEnd (config.inputDirectory.join (stagedName id))).run)
    (hremove : Keeps R' (Files.Access.remove (config.inputDirectory.join (stagedName id))
      : StateM Tree _))
    (hback : ∀ t u, R' t u → R t u) : Keeps R (run config frontEnd id source) := by
  have hcompile : Keeps R (compile config frontEnd id source).run := by
    refine takes_bind (keeps_mapError hmake _) fun _ => ?_
    refine takes_bind (keeps_mapError hstage _) fun _ => ?_
    have hlast := htranslate.bind fun result => hremove.bind fun _ => Takes.pure result
    exact hlast.weaken hback
  exact hcompile.bind fun result => Takes.pure _

end Steps

end Job

end ThreeAddress
