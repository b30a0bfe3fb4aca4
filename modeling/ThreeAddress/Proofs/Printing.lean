import ThreeAddress.Proofs.Loading
import ThreeAddress.Proofs.PrintRoutine

/-!
# What printing does

The lines of a print instruction enter the routine with the operand's value in `x1`, whatever
registers the operand and the scratch key have (`print_enters`). From there the routine writes the
value's numeral and comes to its return (`print_writes`).
-/

namespace ThreeAddress

open Assembly (Register Inst Line Word Setting Machine Placed RoutineAt numeral)
open Assembly.Machine (execAll execAll_append lineOf? Path Quiet Keeps)
open Assembly.PrintInt (entryLabel loopLabel bufferSize)
open Lowering

/-- Neither stores nor calls, so far. -/
def Assembly.Machine.Silent (m q : Machine) : Prop :=
  q.memory = m.memory ∧ q.calls = m.calls

/-- What a print does before it branches: the operand's value goes to `x1` through the scratch
register. -/
def Lowering.passing (register : Key → Register) (a : Operand) : List Inst :=
  load register (register (.scratch .print)) a
    ++ [.mov (.x 1) (.register (register (.scratch .print))), .mov (.x 0) (.int 1)]

namespace Lowering

variable {register : Key → Register} {labels : Labels} {i : Instruction} {a : Operand}

theorem lines_print (hop : i.opcode = .print) : lines register labels i
    = (passing register i.a1).map .inst ++ [.inst (.bl entryLabel)] := by
  simp [lines, insts, hop, passing, Assembly.PrintInt.call]

theorem passing_straight : ∀ j ∈ passing register a, j.isStraight = true := by
  intro j hj
  rcases List.mem_append.1 hj with hj | hj
  · exact load_straight _ hj
  · simp only [List.mem_cons, List.not_mem_nil, or_false] at hj
    rcases hj with rfl | rfl <;> rfl

theorem passing_silent : ∀ j ∈ passing register a, j.isStore = false ∧ j.isCall = false := by
  intro j hj
  rcases List.mem_append.1 hj with hj | hj
  · cases a with
    | empty => cases hj
    | immediate | memory | symbol =>
      rw [List.mem_singleton.1 hj]
      exact ⟨rfl, rfl⟩
  · simp only [List.mem_cons, List.not_mem_nil, or_false] at hj
    rcases hj with rfl | rfl <;> exact ⟨rfl, rfl⟩

section Passing

variable {s : Setting} {base : Word} (hs : s.Faithful base) (ls : List Line) {m : Machine}
  {c : UInt32} {w : Word} (hc : register (.scratch .print) = .x c)
  (hw : valueIn? register s m a = some w)
include hs hc hw

/-- The registers once the value is passed. -/
theorem execAll_passing : ∃ q, execAll s ls (passing register a) m = some q ∧ q.x 1 = w
    ∧ ∀ n, 1 < n → q.x n = if n = c then w else m.x n := by
  have hone (q : Machine) : q.value? s (.int 1) = some 1 := hs.value?_int q 1
  rw [passing, execAll_append, execAll_load _ _ hw, Option.bind_some, hc]
  simp only [execAll, Machine.exec, hone, Assembly.Machine.value?_register, Option.bind_some,
    Option.bind_eq_bind, Option.pure_def]
  refine ⟨_, rfl, ?_, fun n hn => ?_⟩
  · simp [Machine.set, Machine.next, Machine.get]
  · have h0 : n ≠ 0 := by
      rintro rfl
      exact absurd hn (by decide)
    have h1 : n ≠ 1 := by
      rintro rfl
      exact absurd hn (by decide)
    simp [Machine.set, Machine.next, h0, h1]

theorem passing_runs (hplaced : Placed ls m.line ((passing register a).map .inst)) :
    ∃ q, Path s ls m.Silent (List.range' m.line (passing register a).length) m q ∧ m.Silent q
      ∧ q.line = m.line + (passing register a).length ∧ q.x 1 = w
      ∧ ∀ n, 1 < n → q.x n = if n = c then w else m.x n := by
  obtain ⟨q, hrun, hx1, hx⟩ := execAll_passing hs ls hc hw
  have hkeep (j : Inst) (hj : j ∈ passing register a) (q q' : Machine) (hq : m.Silent q)
      (he : q.exec s ls j = some q') : m.Silent q' := by
    obtain ⟨hstore, hcall⟩ := passing_silent j hj
    have hc := Machine.exec_changes he
    exact ⟨(hc.memory hstore).trans hq.1, (hc.calls hcall).trans hq.2⟩
  obtain ⟨hpath, hq, hline⟩ := Path.of_execAll (P := m.Silent) (fun _ => rfl) _ m hplaced
    passing_straight hkeep ⟨rfl, rfl⟩ hrun
  exact ⟨q, hpath, hq, hline, hx1, hx⟩

end Passing

end Lowering

namespace Program

variable {options : Options} {stream : List Instruction} {s : Setting} {m : Machine} {base : Word}
  {index : Nat} {i : Instruction}

/-- The lines of a print come to the routine and leave all but three registers as they were. -/
theorem print_enters (hf : Faultless (.ofStream stream) options.strict i) (hs : s.Faithful base)
    (hi : stream[index]? = some i) (hop : i.opcode = .print)
    (hm : m.line = (layout options stream).lineFor index) {c : UInt32}
    (hc : (layout options stream).bindings.register (.scratch .print) = .x c) :
    ∃ w way q, valueIn? (layout options stream).bindings.register s m i.a1 = some w
      ∧ Path s (layout options stream).lines m.Silent way m q ∧ m.Silent q
      ∧ (∀ k ∈ way, (layout options stream).lineFor index ≤ k
        ∧ k < (layout options stream).lineFor (index + 1))
      ∧ q.line = (layout options stream).lineFor stream.length + 1 ∧ q.x 1 = w
      ∧ (∀ n, 1 < n → n ≠ 30 → q.x n = if n = c then w else m.x n)
      ∧ q.x 30 = s.codeOf ((layout options stream).lineFor (index + 1)) := by
  have hreads : i.a1 ≠ .empty := by
    simp only [Faultless, touches, hop, fault?] at hf
    exact fault?_reads.1 hf
  obtain ⟨w, hw⟩ := Option.ne_none_iff_exists'.1
    (mt (valueIn?_eq_none (layout options stream).bindings.register (s := s) (m := m)).1 hreads)
  have hplaced := placed_block options hi
  have hnext := lineFor_succ options hi
  rw [← hm, block, List.length_append] at hnext
  rw [← hm, block] at hplaced
  have hlabel := Path.of_labelLines (s := s) (P := m.Silent) (fun _ => ⟨rfl, rfl⟩) hplaced
  have hplaced' := hplaced.append_right
  generalize (Generator.labelLines (.ofStream stream) index).length = n at *
  rw [lines_print hop] at hplaced' hnext
  obtain ⟨q₁, hpath, hq₁, hline, hx1, hx⟩ :=
    passing_runs hs _ (m := { m with line := m.line + n }) hc hw hplaced'.append_left
  have hlink : q₁.step? s (layout options stream).lines
      = some { q₁.set Machine.link (s.codeOf (q₁.line + 1)) with
        line := (layout options stream).lineFor stream.length + 1 } := by
    have hl : (layout options stream).lines[q₁.line]? = some (.inst (.bl entryLabel)) := by
      rw [hline, ← List.length_map (f := Line.inst)]
      exact hplaced'.append_right.head
    rw [Machine.step?_of_inst hl rfl, Machine.exec, Machine.jump, lineOf?_entryLabel]
    rfl
  have hlast := Path.single hq₁ hlink
  refine ⟨w, _, _, hw, hlabel.trans (hpath.trans hlast), hq₁, fun k hk => ?_, rfl, ?_,
    fun n hn h30 => ?_, ?_⟩
  · simp only [List.length_append, List.length_map, List.length_singleton] at hnext
    simp only [List.mem_append, List.mem_range'_1, List.mem_singleton, hline] at hk
    rw [← hm, hnext]
    omega
  · exact (Machine.set_x_of_ne (r := Machine.link) (s.codeOf (q₁.line + 1)) (by decide)).trans hx1
  · exact (Machine.set_x_of_ne (r := Machine.link) (s.codeOf (q₁.line + 1)) (Ne.symm h30)).trans
      (hx n hn)
  · rw [hnext, List.length_append, List.length_map, List.length_singleton, ← Nat.add_assoc,
      ← Nat.add_assoc, ← hline]
    rfl

/-- A program's print routine. -/
theorem routineAt_layout (options : Options) (stream : List Instruction) :
    RoutineAt (layout options stream).lines ((layout options stream).lineFor stream.length) :=
  .of_placed (placed_routine options stream) (lineOf?_loopLabel options stream)

/-- Printing writes the operand's value in decimal: the lines of the instruction enter the routine
with the value in `x1`; the routine leaves its loop after at most twenty rounds, makes one call,
stores in its buffer only, writes no register above `x8`, and comes to its return. -/
theorem print_writes {p : Program} (hp : generate options stream = .ok p) (hs : s.Faithful base)
    (hi : stream[index]? = some i) (hop : i.opcode = .print) (hm : m.line = p.lineFor index) :
    ∃ w entry loop before entered way after,
      valueIn? p.bindings.register s m i.a1 = some w
        ∧ lineOf? p.lines entryLabel = some entry ∧ lineOf? p.lines loopLabel = some loop
        ∧ Path s p.lines m.Silent before m entered ∧ m.Silent entered
        ∧ (∀ k ∈ before, p.lineFor index ≤ k ∧ k < p.lineFor (index + 1))
        ∧ entered.line = entry ∧ entered.x 1 = w
        ∧ Path s p.lines (Quiet base entered) way entered after ∧ Keeps base entered after
        ∧ way.count loop ≤ bufferSize
        ∧ after.calls = m.calls ++ [⟨64, 1, numeral w⟩]
        ∧ p.lines[after.line]? = some (.indented .ret) := by
  obtain ⟨hf, rfl⟩ := generate_eq_ok_iff.1 hp
  have hr := routineAt_layout options stream
  obtain ⟨w, before, q, hw, hbefore, hq, hblock, hline, hx1, -, -⟩ :=
    print_enters (hf i (List.mem_of_getElem? hi)) hs hi hop hm rfl
  obtain ⟨way, after, hpath, hkeeps, hret, hcount, -, hcalls, -⟩ :=
    Machine.routine_runs hr hs hline
  rw [hx1] at hcount hcalls
  refine ⟨w, _, _, before, q, way, after, hw, lineOf?_entryLabel options stream,
    lineOf?_loopLabel options stream, hbefore, hq, hblock, hline, hx1, hpath, hkeeps, ?_,
    hq.2 ▸ hcalls, ?_⟩
  · rw [hcount]
    exact Assembly.length_numeral_le w
  · rw [hret]
    exact hr.write.get (j := 5) (by decide)

def assignThenPrint : List Instruction :=
  [.ofTokens "ASSIGN" "#42" "a" "", .ofTokens "PRINT" "a" "" ""]

/-- Printing a name whose word stands in the register that the call then overwrites. -/
theorem print_writes_name : ∃ p after, generate .default assignThenPrint = .ok p
    ∧ Machine.Reaches .sample p.lines (.fresh (p.lineFor 1) fun _ => 42) after
    ∧ after.calls = [⟨64, 1, [52, 50]⟩] := by
  have hp : generate .default assignThenPrint = .ok (layout .default assignThenPrint) :=
    generate_of_faultless (by decide)
  have hi : assignThenPrint[1]? = some (.ofTokens "PRINT" "a" "" "") := rfl
  obtain ⟨w, _, _, _, _, _, after, hw, _, _, hbefore, _, _, _, _, hway, _, _, hcalls, _⟩ :=
    print_writes hp Assembly.Setting.sample_faithful hi rfl
      (m := .fresh _ fun _ => 42) rfl
  refine ⟨_, after, hp, hbefore.reaches.trans hway.reaches, hcalls.trans ?_⟩
  cases hw
  decide

end Program

end ThreeAddress
