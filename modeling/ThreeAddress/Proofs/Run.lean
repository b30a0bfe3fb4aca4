import ThreeAddress.Proofs.Placement

/-!
# Runs of the machine

`Path` is a run with the lines that it passes and a condition on the machines that it leaves.
Instructions that do not branch are run one after the other by `execAll`; where they stand in the
program, `Path.of_execAll` turns that into a run over consecutive lines. An instruction changes at
most one register, memory only if it stores, and makes no call unless it is a system call
(`exec_changes`).
-/

namespace ThreeAddress.Assembly

namespace Inst

/-- Passes control to the next line whatever the machine holds. -/
def isStraight : Inst → Bool
  | .b _ | .bcond .. | .br _ | .bl _ | .cbnz .. | .ret => false
  | _ => true

/-- The register that the instruction writes. -/
def target? : Inst → Option Register
  | .mov rd _ | .ldr rd _ | .adr rd _ | .add rd _ _ | .sub rd _ _ | .mul rd _ _ | .udiv rd _ _
  | .cset rd _ => some rd
  | .bl _ => some Machine.link
  | _ => none

def isStore : Inst → Bool
  | .str .. | .strb .. => true
  | _ => false

def isCall : Inst → Bool
  | .svc _ => true
  | _ => false

end Inst

namespace Setting

/-- Numerals and the character zero read as usual, and the print buffer begins at `base`. -/
structure Faithful (s : Setting) (base : Word) : Prop where
  numeral : ∀ n : Nat, s.literal (toString n) = .ofNat 64 n
  zero : s.literal "'0'" = 48
  bufferEnd : s.address (PrintInt.buffer ++ "+" ++ toString PrintInt.bufferSize)
    = base + .ofNat 64 PrintInt.bufferSize

theorem Faithful.value?_int {s : Setting} {base : Word} (h : s.Faithful base) (m : Machine)
    (n : Nat) : m.value? s (.int n) = some (.ofNat 64 n) :=
  congrArg some (h.numeral n)

/-- A setting as an assembler might give it, with four bytes of code to a line. -/
def sample : Setting where
  literal text := if text = "'0'" then 48 else .ofNat 64 ((Text.readNumeral? text.toList).getD 0)
  address text := if text = "int_buf+20" then 4116 else 4096
  codeOf line := .ofNat 64 (4 * line)
  lineAt? address := some (address.toNat / 4)

theorem sample_faithful : sample.Faithful 4096 := by
  refine ⟨fun n => ?_, rfl, rfl⟩
  have hread : Text.readNumeral? (toString n).toList = some n := by
    rw [Nat.toString_eq_ofList_toDigits, String.toList_ofList, Text.readNumeral?_toDigits]
  have hne : toString n ≠ "'0'" := by
    intro h
    rw [h] at hread
    cases hread
  simp only [sample, if_neg hne, hread, Option.getD_some]

end Setting

namespace Machine

variable {s : Setting} {lines : List Line} {m after : Machine} {i : Inst}

/-- A machine of which only the line and the registers matter. -/
def fresh (line : Nat) (x : UInt32 → Word) : Machine := ⟨line, x, fun _ => 0, (0, 0), []⟩

theorem value?_register (m : Machine) (r : Register) : m.value? s (.register r) = some (m.get r) :=
  rfl

theorem value?_literal (m : Machine) (text : String) :
    m.value? s (.literal text) = some (s.literal text) :=
  rfl

theorem set_x_of_ne {r : Register} (w : Word) {n : UInt32} (h : r.number ≠ n) :
    (m.set r w).x n = m.x n := by
  cases r <;> exact if_neg (Ne.symm h)

theorem set_next_line (m : Machine) (r : Register) (w : Word) :
    (m.set r w).next.line = m.line + 1 := by
  cases r <;> rfl

theorem set_next_memory (m : Machine) (r : Register) (w : Word) :
    (m.set r w).next.memory = m.memory := by
  cases r <;> rfl

theorem set_next_calls (m : Machine) (r : Register) (w : Word) :
    (m.set r w).next.calls = m.calls := by
  cases r <;> rfl

theorem jump_eq_some {label : String} : m.jump lines label = some after
    ↔ ∃ k, lineOf? lines label = some k ∧ after = { m with line := k } := by
  rw [jump, Option.map_eq_some_iff]
  simp only [eq_comm]

theorem jumpTo_eq_some {r : Register} : m.jumpTo s r = some after
    ↔ ∃ k, s.lineAt? (m.get r) = some k ∧ after = { m with line := k } := by
  rw [jumpTo, Option.map_eq_some_iff]
  simp only [eq_comm]

/-- The part of a machine that instructions work on, told apart by what each kind may change. -/
structure Changes (i : Inst) (m after : Machine) : Prop where
  x : ∀ n, (∀ r, i.target? = some r → r.number ≠ n) → after.x n = m.x n
  memory : i.isStore = false → after.memory = m.memory
  calls : i.isCall = false → after.calls = m.calls
  line : i.isStraight = true → after.line = m.line + 1

theorem changes_set_next {rd : Register} (w : Word) (hi : i.target? = some rd) :
    Changes i m (m.set rd w).next where
  x _ hn := set_x_of_ne w (hn rd hi)
  memory _ := set_next_memory m rd w
  calls _ := set_next_calls m rd w
  line _ := set_next_line m rd w

theorem changes_line (k : Nat) (hi : i.isStraight = false) : Changes i m { m with line := k } where
  x _ _ := rfl
  memory _ := rfl
  calls _ := rfl
  line h := absurd h (by simp [hi])

/-- What an instruction does is within what its kind may change. -/
theorem exec_changes (h : m.exec s lines i = some after) : Changes i m after := by
  cases i with
  | mov rd a | ldr rd a | add rd rn a | sub rd rn a =>
    obtain ⟨w, -, h⟩ := Option.bind_eq_some_iff.1 h
    cases h
    exact changes_set_next _ rfl
  | adr rd text | mul rd rn rm | udiv rd rn rm | cset rd c =>
    cases h
    exact changes_set_next _ rfl
  | str rs a | strb rs a =>
    obtain ⟨w, -, h⟩ := Option.bind_eq_some_iff.1 h
    cases h
    exact ⟨fun _ _ => rfl, fun h => by simp [Inst.isStore] at h, fun _ => rfl, fun _ => rfl⟩
  | cmp rn a =>
    obtain ⟨w, -, h⟩ := Option.bind_eq_some_iff.1 h
    cases h
    exact ⟨fun _ _ => rfl, fun _ => rfl, fun _ => rfl, fun _ => rfl⟩
  | b label =>
    obtain ⟨k, -, rfl⟩ := jump_eq_some.1 h
    exact changes_line k rfl
  | bcond c label =>
    simp only [exec] at h
    split at h
    · obtain ⟨k, -, rfl⟩ := jump_eq_some.1 h
      exact changes_line k rfl
    · cases h
      exact changes_line _ rfl
  | cbnz rn label =>
    simp only [exec] at h
    split at h
    · cases h
      exact changes_line _ rfl
    · obtain ⟨k, -, rfl⟩ := jump_eq_some.1 h
      exact changes_line k rfl
  | br rn | ret =>
    obtain ⟨k, -, rfl⟩ := jumpTo_eq_some.1 h
    exact changes_line k rfl
  | bl label =>
    obtain ⟨k, -, rfl⟩ := jump_eq_some.1 h
    exact ⟨fun n hn => set_x_of_ne _ (hn _ rfl), fun _ => rfl, fun _ => rfl,
      fun h => by simp [Inst.isStraight] at h⟩
  | svc number =>
    cases h
    exact ⟨fun _ _ => rfl, fun _ => rfl, fun h => by simp [Inst.isCall] at h, fun _ => rfl⟩

theorem step?_of_inst {l : Line} (h : lines[m.line]? = some l) (hi : l.inst? = some i) :
    m.step? s lines = m.exec s lines i := by
  simp [step?, h, hi]

theorem step?_of_quiet {l : Line} (h : lines[m.line]? = some l) (hi : l.inst? = none) :
    m.step? s lines = some m.next := by
  simp [step?, h, hi]

/-- A run from `m` to `after`: the lines that it passes, and at every machine that it leaves `P`. -/
inductive Path (s : Setting) (lines : List Line) (P : Machine → Prop) :
    List Nat → Machine → Machine → Prop where
  | refl (m : Machine) : Path s lines P [] m m
  | step {m next after : Machine} {way : List Nat} : P m → m.step? s lines = some next →
      Path s lines P way next after → Path s lines P (m.line :: way) m after

namespace Path

variable {P Q : Machine → Prop} {way way' : List Nat} {last : Machine}

theorem single (hP : P m) (h : m.step? s lines = some after) :
    Path s lines P [m.line] m after :=
  .step hP h (.refl after)

theorem trans (h : Path s lines P way m after) (h' : Path s lines P way' after last) :
    Path s lines P (way ++ way') m last := by
  induction h with
  | refl => exact h'
  | step hP hs _ ih => exact .step hP hs (ih h')

theorem mono (hPQ : ∀ m, P m → Q m) (h : Path s lines P way m after) :
    Path s lines Q way m after := by
  induction h with
  | refl => exact .refl _
  | step hP hs _ ih => exact .step (hPQ _ hP) hs ih

/-- The lines passed are those of the machines left. -/
theorem on_way (h : Path s lines P way m after) :
    Path s lines (fun q => P q ∧ q.line ∈ way) way m after := by
  induction h with
  | refl => exact .refl _
  | step hP hs _ ih =>
    exact .step ⟨hP, List.mem_cons_self⟩ hs (ih.mono fun _ h => ⟨h.1, List.mem_cons_of_mem _ h.2⟩)

theorem steps? (h : Path s lines P way m after) :
    m.steps? s lines way.length = some after := by
  induction h with
  | refl => rfl
  | step _ hs _ ih => rw [List.length_cons, Machine.steps?, hs, Option.bind_some, ih]

end Path

/-- Instructions one after the other, wherever they stand. -/
def execAll (s : Setting) (lines : List Line) : List Inst → Machine → Option Machine
  | [], m => some m
  | i :: is, m => (m.exec s lines i).bind (execAll s lines is)

theorem execAll_append (is js : List Inst) (m : Machine) :
    execAll s lines (is ++ js) m = (execAll s lines is m).bind (execAll s lines js) := by
  induction is generalizing m with
  | nil => rfl
  | cons i is ih =>
    rw [List.cons_append, execAll, execAll, Option.bind_assoc]
    exact congrArg _ (funext ih)

/-- Instructions that stand in the program and do not branch are run on consecutive lines; what
each of them keeps holds all the way. -/
theorem Path.of_execAll {P : Machine → Prop} {wrap : Inst → Line}
    (hw : ∀ i, (wrap i).inst? = some i) : ∀ (is : List Inst) (m : Machine),
    Placed lines m.line (is.map wrap) → (∀ i ∈ is, i.isStraight = true) →
      (∀ i ∈ is, ∀ m after, P m → m.exec s lines i = some after → P after) → P m →
      execAll s lines is m = some after →
        Path s lines P (List.range' m.line is.length) m after ∧ P after
          ∧ after.line = m.line + is.length
  | [], m, _, _, _, hm, h => by
    cases h
    exact ⟨.refl _, hm, rfl⟩
  | i :: is, m, hplaced, hstraight, hkeep, hm, h => by
    obtain ⟨next, hnext, h⟩ := Option.bind_eq_some_iff.1 h
    have hline := (exec_changes hnext).line (hstraight i (by simp))
    have hstep := (step?_of_inst hplaced.head (hw i)).trans hnext
    obtain ⟨hpath, hP, hlast⟩ := Path.of_execAll hw is next (hline ▸ hplaced.tail)
      (fun j hj => hstraight j (by simp [hj])) (fun j hj => hkeep j (by simp [hj]))
      (hkeep i (by simp) m next hm hnext) h
    refine ⟨?_, hP, by rw [hlast, hline, List.length_cons]; omega⟩
    rw [hline] at hpath
    exact .step hm hstep hpath

/-- The machine comes to another after some number of lines. -/
def Reaches (s : Setting) (lines : List Line) (m after : Machine) : Prop :=
  ∃ n, m.steps? s lines n = some after

theorem Reaches.refl (m : Machine) : Reaches s lines m m :=
  ⟨0, rfl⟩

theorem Reaches.single (h : m.step? s lines = some after) : Reaches s lines m after :=
  ⟨1, by rw [steps?, h]; rfl⟩

theorem Reaches.trans {last : Machine} (h : Reaches s lines m after)
    (h' : Reaches s lines after last) : Reaches s lines m last := by
  obtain ⟨j, hj⟩ := h
  obtain ⟨k, hk⟩ := h'
  exact ⟨j + k, by rw [steps?_add, hj, Option.bind_some, hk]⟩

theorem Path.reaches {P : Machine → Prop} {way : List Nat} (h : Path s lines P way m after) :
    Reaches s lines m after :=
  ⟨_, h.steps?⟩

theorem Reaches.of_execAll {is : List Inst} (hplaced : Placed lines m.line (is.map .inst))
    (hstraight : ∀ i ∈ is, i.isStraight = true) (h : execAll s lines is m = some after) :
    Reaches s lines m after ∧ after.line = m.line + is.length := by
  obtain ⟨hpath, -, hline⟩ := Path.of_execAll (P := fun _ => True) (fun _ => rfl) is m hplaced
    hstraight (fun _ _ _ _ _ _ => trivial) trivial h
  exact ⟨hpath.reaches, hline⟩

/-- The label line of a block is passed, if there is one. -/
theorem Path.of_labelLines {P : Machine → Prop} (hP : ∀ k, P { m with line := k })
    {labels : Labels} {index : Nat} {rest : List Line}
    (h : Placed lines m.line (Generator.labelLines labels index ++ rest)) :
    Path s lines P (List.range' m.line (Generator.labelLines labels index).length) m
      { m with line := m.line + (Generator.labelLines labels index).length } := by
  unfold Generator.labelLines at h ⊢
  generalize labels.declared? index = declared at h ⊢
  rcases declared with _ | label
  · exact .refl m
  · exact .single (hP m.line) (step?_of_quiet (l := .label label) h.head rfl)

end Machine

end ThreeAddress.Assembly
