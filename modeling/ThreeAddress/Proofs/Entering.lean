import ThreeAddress.Proofs.Names
import ThreeAddress.Proofs.Printing

/-!
# How control comes to the print routine

Nothing stands between the last line of the body and the print routine, so a run that comes to the
end of the body falls into the routine. Until then, and as long as it takes no computed branch,
control comes to the routine's first label only by the branch of a print (`enters_routine`). The
invariant is `Called`: a machine is in the body, or in the routine with a return address in the
body.
-/

namespace ThreeAddress

open Assembly (Register Inst Line Word Setting Machine)
open Assembly.Machine (lineOf? Path)
open Assembly.PrintInt (entryLabel loopLabel)
open Lowering

/-- The line keeps the link register and passes control to the next line or to the loop. -/
def Assembly.Line.isInner (l : Line) : Bool :=
  l.inst?.all fun j =>
    (j.target?.all fun r => r.number ≤ 8) && (j.isStraight || j == .cbnz (.x 6) loopLabel)

namespace Program

section Layout

variable (options : Options) (stream : List Instruction) {s : Setting} {m q q' : Machine} {k : Nat}

/-- Every line between the header and the routine is in the block of an instruction. -/
theorem exists_block (h3 : 3 ≤ k) (hk : k < (layout options stream).lineFor stream.length) :
    ∃ index i, stream[index]? = some i ∧ (layout options stream).lineFor index ≤ k
      ∧ k < (layout options stream).lineFor (index + 1) := by
  have hupto : ∀ n ≤ stream.length, k < (layout options stream).lineFor n → ∃ index i,
      stream[index]? = some i ∧ (layout options stream).lineFor index ≤ k
        ∧ k < (layout options stream).lineFor (index + 1) := by
    intro n hn hlt
    induction n with
    | zero =>
      rw [lineFor_layout, List.take_zero, List.flatten_nil, List.length_nil] at hlt
      omega
    | succ n ih =>
      by_cases hbefore : k < (layout options stream).lineFor n
      · exact ih (by omega) hbefore
      · exact ⟨n, _, List.getElem?_eq_getElem (by omega), Nat.le_of_not_lt hbefore, hlt⟩
  exact hupto stream.length (Nat.le_refl _) hk

/-- The first three lines are no instructions. -/
theorem inst?_header (hk : k < 3) {l : Line} (h : (layout options stream).lines[k]? = some l) :
    l.inst? = none := by
  have hlines : (layout options stream).lines[k]? = (Assembly.header options.entry)[k]? := by
    rw [lines_layout, body_layout, List.append_assoc]
    exact List.getElem?_append_left hk
  rw [hlines] at h
  have hmem := List.mem_of_getElem? h
  simp only [Assembly.header, List.mem_cons, List.not_mem_nil, or_false] at hmem
  rcases hmem with rfl | rfl | rfl <;> rfl

/-- A branch to a label of an instruction stays in the body. -/
theorem jump_name {t : Nat} (h : m.jump (layout options stream).lines (Labels.name t) = some q) :
    q.line ≤ (layout options stream).body.length := by
  obtain ⟨k, hk, rfl⟩ := Machine.jump_eq_some.1 h
  have hl := Machine.lineOf?_eq_some hk
  by_contra hlt
  rw [lines_layout, List.getElem?_append_right (Nat.le_of_not_le hlt)] at hl
  exact Labels.name_notMem_routine (List.mem_of_getElem? hl)

/-- The line is the branch of a print to the routine. -/
def IsCall (p : Program) (stream : List Instruction) (k : Nat) : Prop :=
  ∃ index i, stream[index]? = some i ∧ i.opcode = .print ∧ p.lineFor index ≤ k
    ∧ k < p.lineFor (index + 1) ∧ p.lines[k]? = some (.inst (.bl entryLabel))

/-- From a line of the body control comes to another line of the body, or by a call to the
routine. -/
theorem body_step (hq : q.line < (layout options stream).body.length)
    (hbr : ∀ r, (layout options stream).lines[q.line]? ≠ some (.inst (.br r)))
    (hstep : q.step? s (layout options stream).lines = some q') :
    q'.line ≤ (layout options stream).body.length
      ∨ (q'.line = (layout options stream).body.length + 1 ∧ q'.x 30 = s.codeOf (q.line + 1)
        ∧ (layout options stream).IsCall stream q.line) := by
  rcases hl : (layout options stream).lines[q.line]? with _ | l
  · rw [Machine.step?, hl] at hstep
    cases hstep
  rcases hinst : l.inst? with _ | j
  · rw [Machine.step?_of_quiet hl hinst] at hstep
    cases hstep
    exact .inl hq
  rw [Machine.step?_of_inst hl hinst] at hstep
  have h3 : 3 ≤ q.line := by
    by_contra hlt
    rw [inst?_header options stream (by omega) hl] at hinst
    cases hinst
  rw [← lineFor_length] at hq
  obtain ⟨index, i, hi, hfrom, hto⟩ := exists_block options stream h3 hq
  obtain ⟨l', hmem, hl'⟩ := getElem?_of_block options hi hfrom hto
  cases Option.some.inj (hl.symm.trans hl')
  obtain ⟨rfl, hj⟩ := inst_mem_block hmem hinst
  rw [lineFor_length] at hq
  rcases insts_shape hj with hs | ⟨t, -, rfl | rfl⟩ | ⟨r, rfl⟩ | ⟨rfl, hop⟩
  · rw [(Machine.exec_changes hstep).line hs]
    exact .inl hq
  · exact .inl (jump_name options stream hstep)
  · simp only [Machine.exec] at hstep
    split at hstep
    · exact .inl (jump_name options stream hstep)
    · cases hstep
      exact .inl hq
  · exact absurd hl (hbr r)
  · rw [Machine.exec, Machine.jump, lineOf?_entryLabel, lineFor_length] at hstep
    cases hstep
    exact .inr ⟨rfl, rfl, index, i, hi, hop, hfrom, hto, hl⟩

/-- A line of the routine before its return goes on to the next one or to the loop, and leaves the
link register alone. -/
theorem routine_step {d : Nat} (hd : 1 ≤ d) (hd' : d < 21)
    (hq : q.line = (layout options stream).body.length + d)
    (hstep : q.step? s (layout options stream).lines = some q') :
    (∃ d', 2 ≤ d' ∧ d' ≤ 21 ∧ q'.line = (layout options stream).body.length + d')
      ∧ q'.x 30 = q.x 30 := by
  have hinner : ∀ d < 21, 1 ≤ d → ∃ l ∈ Assembly.PrintInt.routine[d]?,
      l.isInner = true := by
    decide
  obtain ⟨l, hl, hinner⟩ := hinner d hd' hd
  have hline : (layout options stream).lines[q.line]? = some l := by
    rw [hq, ← lineFor_length, (placed_routine options stream).get (Nat.lt_trans hd' (by decide))]
    exact hl
  rcases hinst : l.inst? with _ | j
  · rw [Machine.step?_of_quiet hline hinst] at hstep
    cases hstep
    exact ⟨⟨d + 1, by omega, hd', congrArg (· + 1) hq⟩, rfl⟩
  rw [Machine.step?_of_inst hline hinst] at hstep
  simp only [Line.isInner, hinst, Option.all_some, Bool.and_eq_true, Bool.or_eq_true, beq_iff_eq,
    Option.all_eq_true, decide_eq_true_eq] at hinner
  have hx : q'.x 30 = q.x 30 := by
    refine (Machine.exec_changes hstep).x 30 fun r hr h30 => ?_
    have := hinner.1 r hr
    rw [h30] at this
    exact absurd this (by decide)
  refine ⟨?_, hx⟩
  rcases hinner.2 with hstraight | rfl
  · exact ⟨d + 1, by omega, hd', by rw [(Machine.exec_changes hstep).line hstraight, hq]; rfl⟩
  · simp only [Machine.exec] at hstep
    split at hstep
    · cases hstep
      exact ⟨d + 1, by omega, hd', congrArg (· + 1) hq⟩
    · rw [Machine.jump, lineOf?_loopLabel, lineFor_length] at hstep
      cases hstep
      exact ⟨6, by omega, by omega, rfl⟩

/-- In the body, or in the routine with a return address in the body. -/
def Called (p : Program) (s : Setting) (q : Machine) : Prop :=
  q.line ≤ p.body.length
    ∨ (∃ d, 1 ≤ d ∧ d ≤ 21 ∧ q.line = p.body.length + d)
      ∧ ∃ k ≤ p.body.length, q.x 30 = s.codeOf k

theorem Called.step (h : (layout options stream).Called s q)
    (hcode : ∀ k ≤ (layout options stream).body.length, s.lineAt? (s.codeOf k) = some k)
    (hq : q.line ≠ (layout options stream).body.length)
    (hbr : ∀ r, (layout options stream).lines[q.line]? ≠ some (.inst (.br r)))
    (hstep : q.step? s (layout options stream).lines = some q') :
    (layout options stream).Called s q'
      ∧ (q'.line = (layout options stream).body.length + 1
        → (layout options stream).IsCall stream q.line) := by
  rcases h with hbody | ⟨⟨d, hd, hd', hline⟩, k, hk, hlink⟩
  · rcases body_step options stream (by omega) hbr hstep with hle | ⟨hline, hlink, hcall⟩
    · exact ⟨.inl hle, fun h => by omega⟩
    · exact ⟨.inr ⟨⟨1, by omega, by omega, hline⟩, q.line + 1, by omega, hlink⟩, fun _ => hcall⟩
  · by_cases hret : d = 21
    · subst hret
      have hl : (layout options stream).lines[q.line]? = some (.indented .ret) := by
        rw [hline, ← lineFor_length]
        exact (placed_routine options stream).get (by decide)
      rw [Machine.step?_of_inst hl rfl, Machine.exec, Machine.jumpTo] at hstep
      rw [show q.get Machine.link = s.codeOf k from hlink, hcode k hk] at hstep
      cases hstep
      refine ⟨.inl hk, fun h => ?_⟩
      have : k = (layout options stream).body.length + 1 := h
      omega
    · obtain ⟨⟨e, he, he', hline'⟩, hx⟩ := routine_step options stream hd (by omega) hline hstep
      exact ⟨.inr ⟨⟨e, by omega, he', hline'⟩, k, hk, hx.trans hlink⟩, fun h => by omega⟩

/-- Along a run that comes to the routine's first label. -/
theorem Called.path {way : List Nat} (h : (layout options stream).Called s m)
    (hcode : ∀ k ≤ (layout options stream).body.length, s.lineAt? (s.codeOf k) = some k)
    (hpath : Path s (layout options stream).lines
      (fun q => ∀ r, (layout options stream).lines[q.line]? ≠ some (.inst (.br r))) way m q)
    (hq : q.line = (layout options stream).body.length + 1) :
    way = [] ∨ (layout options stream).body.length ∈ way
      ∨ ∃ before k, way = before ++ [k] ∧ (layout options stream).IsCall stream k := by
  induction hpath with
  | refl => exact .inl rfl
  | @step m next q way hbr hstep hrest ih =>
    by_cases hend : m.line = (layout options stream).body.length
    · exact .inr (.inl (by rw [hend]; exact List.mem_cons_self))
    obtain ⟨hnext, hcall⟩ := h.step options stream hcode hend hbr hstep
    rcases ih hnext hq with rfl | hpast | ⟨before, k, rfl, hk⟩
    · cases hrest
      exact .inr (.inr ⟨[], _, rfl, hcall hq⟩)
    · exact .inr (.inl (List.mem_cons_of_mem _ hpast))
    · exact .inr (.inr ⟨m.line :: before, k, rfl, hk⟩)

end Layout

section Entering

variable {options : Options} {stream : List Instruction} {p : Program} {s : Setting}

end Entering

end Program

end ThreeAddress
