import ThreeAddress.Execution
import ThreeAddress.Proofs.Loading

/-!
# A stream and its program run alike

`Bindings.Holds` relates a machine to an execution: the same memory, and every bound name's word in
the name's register. The lines of an instruction take a machine that holds an execution to one that
holds the next (`Agrees.step`), and so for any number of instructions (`Program.simulates`).
Printing and jumps to a computed address are left out.
-/

namespace ThreeAddress

open Assembly (Register Inst Line Word Setting Machine Placed)
open Assembly.Machine (execAll execAll_append)
open Lowering

/-- The machine has the memory of the execution, and its names in their registers. -/
structure Bindings.Holds (b : Bindings) (m : Machine) (e : Execution) : Prop where
  memory : m.memory = e.memory
  names : ∀ v r, b.get? (.value v) = some r → m.get r = e.names v

namespace Bindings.Holds

variable {b : Bindings} {s : Setting} {lines : List Line} {m m' : Machine} {e e' : Execution}

theorem get (h : b.Holds m e) {v : String} (hv : .value v ∈ b.keys) :
    m.get (b.register (.value v)) = e.names v :=
  h.names v _ (get?_eq_some.2 ⟨hv, rfl⟩)

theorem congr (h : b.Holds m e) (hx : m'.x = m.x) (hm : m'.memory = m.memory)
    (hn : e'.names = e.names) (he : e'.memory = e.memory) : b.Holds m' e' where
  memory := (hm.trans h.memory).trans he.symm
  names v r hr := by rw [Machine.get_congr hx r, h.names v r hr, hn]

theorem valueIn? (h : b.Holds m e) (slot : Nat) {a : Operand}
    (hk : ∀ k, .key k ∈ reads slot a → k ∈ b.keys) :
    Lowering.valueIn? b.register s m a = e.value? s.literal a := by
  cases a with
  | empty | immediate l => rfl
  | memory v | symbol v =>
    have hv := h.get (hk (.value v) (by simp [reads]))
    simp only [Lowering.valueIn?, Execution.value?, hv, h.memory]

/-- A scratch register is no name's. -/
theorem set_scratch (h : b.Holds m e) (hb : b.size ≤ UInt32.size) {c : Scratch}
    (hc : .scratch c ∈ b.keys) (w : Word) :
    b.Holds (m.set (b.register (.scratch c)) w).next e where
  memory := (Machine.set_next_memory m _ w).trans h.memory
  names v r hr := by
    obtain ⟨hv, rfl⟩ := get?_eq_some.1 hr
    have := get_set_register (m := m) hb hc hv w
    rw [if_neg (by simp)] at this
    exact this.trans (h.get hv)

variable (s lines)

/-- A word in a register goes to the cell that a name addresses. -/
theorem store (h : b.Holds m e) {v : String} (hv : .value v ∈ b.keys) {r : Register} {w : Word}
    (hw : m.get r = w) : ∃ after, execAll s lines [.str r (.cell (b.register (.value v)))] m
      = some after ∧ b.Holds after { e with memory := e.memory.store (e.names v) w } := by
  refine ⟨_, rfl, ?_, h.names⟩
  show m.memory.store (m.get (b.register (.value v))) (m.get r) = _
  rw [h.memory, h.get hv, hw]

/-- The register of a result and the store that may follow give the destination its word. -/
theorem assign (h : b.Holds m e) (hb : b.size ≤ UInt32.size) {slot : Nat} {a : Operand} {w : Word}
    (hk : ∀ k, .key k ∈ writes slot a → k ∈ b.keys) (he : e.assign? w a = some e') :
    ∃ after, execAll s lines (writeBack b.register a) (m.set (result b.register a) w).next
      = some after ∧ b.Holds after e' := by
  cases a with
  | empty | immediate l => cases he
  | memory v =>
    have hs : .scratch .store ∈ b.keys := hk _ (by simp [writes])
    have hv : .value v ∈ b.keys := hk _ (by simp [writes])
    cases he
    exact (h.set_scratch hb hs w).store s lines hv (Machine.get_set_self m _ w)
  | symbol v =>
    have hv : .value v ∈ b.keys := hk _ (by simp [writes])
    cases he
    refine ⟨_, rfl, (Machine.set_next_memory m _ w).trans h.memory, fun u r hr => ?_⟩
    obtain ⟨hu, rfl⟩ := get?_eq_some.1 hr
    have := get_set_register (m := m) hb hv hu w
    simp only [Key.value.injEq] at this
    refine this.trans ?_
    rw [h.get hu]

/-- Both sources stand in their scratch registers, the second one loaded last. -/
theorem loadBoth (h : b.Holds m e) (hb : b.size ≤ UInt32.size) {i : Instruction} {u w : Word}
    (hk : ∀ k, .key k ∈ computes i → k ∈ b.keys) (hu : e.value? s.literal i.a1 = some u)
    (hw : e.value? s.literal i.a2 = some w) :
    ∃ after, execAll s lines (loadBoth b.register i) m = some after ∧ b.Holds after e
      ∧ after.get (b.register (.scratch .lhs)) = u
      ∧ after.get (b.register (.scratch .rhs)) = w := by
  have hl : .scratch .lhs ∈ b.keys := hk _ (by simp [computes])
  have hr : .scratch .rhs ∈ b.keys := hk _ (by simp [computes])
  have h₁ := h.set_scratch hb hl u
  have hu' := (h.valueIn? 1 fun k h => hk k (by simp [computes, h])).trans hu
  have hw' := (h₁.valueIn? 2 fun k h => hk k (by simp [computes, h])).trans hw
  refine ⟨_, ?_, h₁.set_scratch hb hr w, ?_, Machine.get_set_self _ _ w⟩
  · rw [Lowering.loadBoth, execAll_append, execAll_load _ _ hu', Option.bind_some,
      execAll_load _ _ hw']
  · have := get_set_register (m := (m.set (b.register (.scratch .lhs)) u).next) hb hr hl w
    rw [if_neg (by simp)] at this
    exact this.trans (Machine.get_set_self m _ u)

end Bindings.Holds

namespace Execution

variable {literal : String → Word} {e e' : Execution} {i : Instruction}

theorem assign?_counter {w : Word} {a : Operand} (h : e.assign? w a = some e') :
    e'.counter = e.counter := by
  cases a <;> cases h <;> rfl

theorem compute?_counter {f : Word → Word → Word} (h : e.compute? literal i f = some e') :
    e'.counter = e.counter + 1 := by
  simp only [compute?, Option.bind_eq_bind, Option.bind_eq_some_iff, Option.pure_def,
    Option.some.injEq] at h
  obtain ⟨u, -, w, -, e₁, he₁, rfl⟩ := h
  exact congrArg (· + 1) (assign?_counter he₁)

theorem exec?_assign (h : e.exec? literal i = some e') (hi : i.opcode = .assign) :
    ∃ w e₁, e.value? literal i.a1 = some w ∧ e.assign? w i.a2 = some e₁ ∧ e' = e₁.next := by
  simp only [exec?, hi, Option.bind_eq_bind, Option.bind_eq_some_iff, Option.pure_def,
    Option.some.injEq] at h
  obtain ⟨w, hw, e₁, he₁, rfl⟩ := h
  exact ⟨w, e₁, hw, he₁, rfl⟩

theorem exec?_jump (h : e.exec? literal i = some e') (hi : i.opcode = .jump) :
    ∃ t, i.a1.address? = some t ∧ e' = { e with counter := t } := by
  simp only [exec?, hi, jump?, Option.map_eq_some_iff] at h
  obtain ⟨t, ht, rfl⟩ := h
  exact ⟨t, ht, rfl⟩

theorem exec?_jumpIfFalse (h : e.exec? literal i = some e') (hi : i.opcode = .jumpIfFalse) :
    ∃ w, e.value? literal i.a1 = some w
      ∧ (if w = 0 then ∃ t, i.a2.address? = some t ∧ e' = { e with counter := t }
        else e' = e.next) := by
  simp only [exec?, hi, Option.bind_eq_bind, Option.bind_eq_some_iff, Option.pure_def] at h
  obtain ⟨w, hw, h⟩ := h
  refine ⟨w, hw, ?_⟩
  split at h
  · rw [if_pos ‹_›]
    simp only [jump?, Option.map_eq_some_iff] at h
    obtain ⟨t, ht, rfl⟩ := h
    exact ⟨t, ht, rfl⟩
  · rw [if_neg ‹_›]
    exact (Option.some.inj h).symm

variable (literal e)

theorem value?_isSome {slot : Nat} {a : Operand} (h : fault? (reads slot a) = none) :
    ∃ w, e.value? literal a = some w := by
  have hne := fault?_reads.1 h
  cases a with
  | empty => exact absurd rfl hne
  | immediate l | memory v | symbol v => exact ⟨_, rfl⟩

theorem assign?_isSome {slot : Nat} {a : Operand} (w : Word)
    (h : fault? (writes slot a) = none) : ∃ e', e.assign? w a = some e' := by
  rcases fault?_writes.1 h with ⟨v, rfl⟩ | ⟨v, rfl⟩ <;> exact ⟨_, rfl⟩

theorem compute?_isSome (f : Word → Word → Word) (h : fault? (computes i) = none) :
    ∃ e', e.compute? literal i f = some e' := by
  obtain ⟨hdest, hlhs, hrhs⟩ := faults_computes.1 h
  obtain ⟨u, hu⟩ := value?_isSome literal e hlhs
  obtain ⟨w, hw⟩ := value?_isSome literal e hrhs
  obtain ⟨e₁, he₁⟩ := assign?_isSome e (f u w) hdest
  refine ⟨e₁.next, ?_⟩
  simp only [compute?, hu, hw, he₁, Option.bind_eq_bind, Option.bind_some]
  rfl

theorem jump?_isSome {stream : List Instruction} {target : Operand}
    (h : fault? (branches (.ofStream stream) true target) = none) :
    ∃ e', e.jump? target = some e' := by
  obtain ⟨t, -, ht, -⟩ := Program.lineOf?_target .default h
  exact ⟨_, by rw [jump?, ht]; rfl⟩

/-- A faultless instruction has a next state, unless it jumps to a computed address. -/
theorem exec?_isSome {stream : List Instruction} (hf : Faultless (.ofStream stream) true i)
    (hjump : i.opcode = .jump → i.a1.isMemory = false) :
    ∃ e', e.exec? literal i = some e' := by
  unfold Faultless at hf
  unfold exec?
  obtain ⟨op, a1, a2, a3, place⟩ := i
  cases op with
  | assign =>
    have hfaults : fault? (writes 2 a2) = none ∧ fault? (reads 1 a1) = none := by
      cases a2 <;> simp_all [touches, fault?, fault?_append, writes]
    obtain ⟨w, hw⟩ := value?_isSome literal e hfaults.2
    obtain ⟨e₁, he₁⟩ := assign?_isSome e w hfaults.1
    exact ⟨e₁.next, by simp [hw, he₁]⟩
  | add | sub | mult | lessThan => exact compute?_isSome literal e _ hf
  | jump =>
    have hbranches : fault? (branches (.ofStream stream) true a1) = none := by
      cases a1 <;> simp_all [touches, Operand.isMemory]
    exact jump?_isSome e hbranches
  | jumpIfFalse =>
    simp only [touches, List.cons_append, fault?, fault?_append, Option.or_eq_none_iff] at hf
    obtain ⟨w, hw⟩ := value?_isSome literal e hf.1
    obtain ⟨e₁, he₁⟩ := jump?_isSome e hf.2
    by_cases hw0 : w = 0
    · exact ⟨e₁, by simp [hw, hw0, he₁]⟩
    · refine ⟨e.next, ?_⟩
      simp only [hw, Option.bind_eq_bind, Option.bind_some, if_neg hw0]
      rfl
  | print =>
    obtain ⟨w, hw⟩ := value?_isSome literal e hf
    exact ⟨_, by simp [hw]; rfl⟩
  | unknown tag => exact ⟨_, rfl⟩

end Execution

namespace Bindings.Holds

variable {b : Bindings} {s : Setting} {lines : List Line} {m : Machine} {e e' : Execution}

/-- Computing from both sources, whatever instructions bring the result into its register. -/
theorem compute (h : b.Holds m e) (hb : b.size ≤ UInt32.size) {labels : Labels} {i : Instruction}
    (lines : List Line) {ops : List Inst} {f : Word → Word → Word}
    (hk : ∀ k, .key k ∈ computes i → k ∈ b.keys)
    (hinsts : Lowering.insts b.register labels i
      = Lowering.loadBoth b.register i ++ ops ++ writeBack b.register i.a3)
    (hops : ∀ m : Machine, ∃ m₁ : Machine, m₁.x = m.x ∧ m₁.memory = m.memory
      ∧ execAll s lines ops m = some (m₁.set (result b.register i.a3)
        (f (m.get (b.register (.scratch .lhs))) (m.get (b.register (.scratch .rhs))))).next)
    (he : e.compute? s.literal i f = some e') :
    ∃ after, execAll s lines (Lowering.insts b.register labels i) m = some after
      ∧ b.Holds after e' ∧ e'.counter = e.counter + 1 := by
  have hcounter := Execution.compute?_counter he
  simp only [Execution.compute?, Option.bind_eq_bind, Option.bind_eq_some_iff,
    Option.pure_def, Option.some.injEq] at he
  obtain ⟨u, hu, w, hw, e₁, he₁, rfl⟩ := he
  obtain ⟨m₁, hm₁, h₁, rfl, rfl⟩ := h.loadBoth s lines hb hk hu hw
  obtain ⟨m₂, hx, hmem, hm₂⟩ := hops m₁
  have hk' (k : Key) (h : .key k ∈ writes 3 i.a3) : k ∈ b.keys := hk k (by simp [computes, h])
  obtain ⟨after, hafter, h'⟩ := (h₁.congr hx hmem rfl rfl).assign s lines hb hk' he₁
  refine ⟨after, ?_, h'.congr rfl rfl rfl rfl, hcounter⟩
  rw [hinsts, execAll_append, execAll_append, hm₁, Option.bind_some, hm₂, Option.bind_some, hafter]

/-- The instructions of an assigning operator do to the machine what it does to the execution. -/
theorem insts (h : b.Holds m e) (hb : b.size ≤ UInt32.size) {labels : Labels} {strict : Bool}
    {i : Instruction} (hi : i.opcode.assigns = true)
    (hk : ∀ k, .key k ∈ touches labels strict i → k ∈ b.keys) (lines : List Line)
    (he : e.exec? s.literal i = some e') :
    ∃ after, execAll s lines (Lowering.insts b.register labels i) m = some after
      ∧ b.Holds after e' ∧ e'.counter = e.counter + 1 := by
  obtain ⟨op, a1, a2, a3, place⟩ := i
  cases op with
  | assign =>
    obtain ⟨w, e₁, hw, he₁, rfl⟩ := Execution.exec?_assign he rfl
    have hk1 (k : Key) (hr : .key k ∈ reads 1 a1) : k ∈ b.keys := by
      cases a2 <;> exact hk k (by simp [touches, hr])
    have hk2 (k : Key) (hr : .key k ∈ writes 2 a2) : k ∈ b.keys := by
      cases a2 with
      | memory v =>
        refine hk k ?_
        simp only [writes, List.mem_cons, List.not_mem_nil, or_false] at hr
        rcases hr with hr | hr <;> simp [touches, hr]
      | empty | immediate l | symbol v => exact hk k (by simp [touches, hr])
    obtain ⟨after, hafter, h'⟩ := h.assign s lines hb hk2 he₁
    refine ⟨after, ?_, h'.congr rfl rfl rfl rfl, congrArg (· + 1) (Execution.assign?_counter he₁)⟩
    rw [Lowering.insts, execAll_append, execAll_load _ _ ((h.valueIn? 1 hk1).trans hw),
      Option.bind_some, hafter]
  | add | sub | mult => exact h.compute hb lines hk rfl (fun m => ⟨m, rfl, rfl, rfl⟩) he
  | lessThan =>
    refine h.compute hb lines hk rfl (fun m => ⟨{ m.next with
      compared := (m.get (b.register (.scratch .lhs)), m.get (b.register (.scratch .rhs))) },
      rfl, rfl, rfl⟩) he
  | jump | jumpIfFalse | print | unknown tag => cases hi

end Bindings.Holds

section Lines

open Assembly.Machine (Reaches)

variable {options : Options} {stream : List Instruction} {b : Bindings} {s : Setting}
  {lines : List Line} {m : Machine} {e e' : Execution} {i : Instruction}

/-- An assigning instruction runs to the end of its lines. -/
theorem Bindings.Holds.assigns (h : b.Holds m e) (hb : b.size ≤ UInt32.size) {labels : Labels}
    {strict : Bool} (hi : i.opcode.assigns = true)
    (hk : ∀ k, .key k ∈ touches labels strict i → k ∈ b.keys)
    (hplaced : Placed lines m.line (Lowering.lines b.register labels i))
    (he : e.exec? s.literal i = some e') :
    ∃ after, Reaches s lines m after ∧ b.Holds after e' ∧ e'.counter = e.counter + 1
      ∧ after.line = m.line + (Lowering.lines b.register labels i).length := by
  have hlines : Lowering.lines b.register labels i
      = (Lowering.insts b.register labels i).map .inst := by
    unfold Lowering.lines
    split
    · next hop =>
      rw [hop] at hi
      cases hi
    · rfl
  obtain ⟨after, hafter, h', hcounter⟩ := h.insts hb hi hk lines he
  rw [hlines] at hplaced ⊢
  obtain ⟨hreach, hline⟩ := Reaches.of_execAll hplaced (insts_straight _ hi) hafter
  exact ⟨after, hreach, h', hcounter, by rw [hline, List.length_map]⟩

theorem Bindings.Holds.test (h : b.Holds m e) (hb : b.size ≤ UInt32.size) {w : Word}
    (hc : .scratch .cond ∈ b.keys) (hk : ∀ k, .key k ∈ reads 1 i.a1 → k ∈ b.keys)
    (hw : e.value? s.literal i.a1 = some w) (lines : List Line) :
    ∃ after, execAll s lines (Lowering.test b.register i) m = some after ∧ b.Holds after e
      ∧ after.compared = (w, s.literal "0") := by
  have h' := h.set_scratch hb hc w
  have hcompared : b.Holds { (m.set (b.register (.scratch .cond)) w).next.next with
      compared := (w, s.literal "0") } e := h'.congr rfl rfl rfl rfl
  refine ⟨_, ?_, hcompared, rfl⟩
  rw [Lowering.test, execAll_append, execAll_load _ _ ((h.valueIn? 1 hk).trans hw),
    Option.bind_some]
  have hget : (m.set (b.register (.scratch .cond)) w).next.get (b.register (.scratch .cond)) = w :=
    Machine.get_set_self m _ w
  simp only [execAll, Machine.exec, Machine.value?, hget]
  rfl

namespace Program

/-- A jump goes to the block of its target. -/
theorem jump_simulates (hf : Faultless (.ofStream stream) true i) (hop : i.opcode = .jump)
    (hmem : i.a1.isMemory = false)
    (hplaced : Placed (layout options stream).lines m.line
      (Lowering.lines b.register (.ofStream stream) i))
    (he : e.exec? s.literal i = some e') :
    ∃ t, e' = { e with counter := t } ∧ t < stream.length
      ∧ Reaches s (layout options stream).lines m
          { m with line := (layout options stream).lineFor t } := by
  obtain ⟨u, hu, rfl⟩ := Execution.exec?_jump he hop
  have hbranches : fault? (branches (.ofStream stream) true i.a1) = none := by
    rw [Faultless, touches, hop] at hf
    cases ha : i.a1 <;> simp_all [Operand.isMemory]
  obtain ⟨t, label, ht, htn, hlabel, hline⟩ := lineOf?_target options hbranches
  cases hu.symm.trans ht
  have hlines : Lowering.lines b.register (.ofStream stream) i = [.inst (.b label)] := by
    cases ha : i.a1 <;> simp_all [Lowering.lines, Lowering.insts, Operand.isMemory]
  rw [hlines] at hplaced
  refine ⟨_, rfl, htn, .single ?_⟩
  rw [Machine.step?_of_inst hplaced.head rfl, Machine.exec, Machine.jump, hline]
  rfl

/-- A jump on false compares with zero and branches, or passes to the line after its own. -/
theorem jumpIfFalse_simulates (h : b.Holds m e) (hb : b.size ≤ UInt32.size)
    (hf : Faultless (.ofStream stream) true i) (hop : i.opcode = .jumpIfFalse)
    (hk : ∀ k, .key k ∈ touches (.ofStream stream) true i → k ∈ b.keys)
    (hzero : s.literal "0" = 0)
    (hplaced : Placed (layout options stream).lines m.line
      (Lowering.lines b.register (.ofStream stream) i))
    (he : e.exec? s.literal i = some e') :
    ∃ after, Reaches s (layout options stream).lines m after ∧ b.Holds after e'
      ∧ ((e'.counter < stream.length
          ∧ after.line = (layout options stream).lineFor e'.counter)
        ∨ (e'.counter = e.counter + 1
          ∧ after.line = m.line + (Lowering.lines b.register (.ofStream stream) i).length)) := by
  obtain ⟨w, hw, he⟩ := Execution.exec?_jumpIfFalse he hop
  simp only [Faultless, touches, hop] at hf hk
  simp only [List.cons_append, fault?, fault?_append, Option.or_eq_none_iff] at hf
  obtain ⟨t, label, ht, htn, hlabel, hline⟩ := lineOf?_target options hf.2
  have hlines : Lowering.lines b.register (.ofStream stream) i
      = (test b.register i).map .inst ++ [.inst (.bcond .eq label)] := by
    simp [Lowering.lines, Lowering.insts, hop, hlabel, test]
  rw [hlines] at hplaced ⊢
  obtain ⟨m₁, hm₁, h₁, hcompared⟩ := h.test hb (i := i)
    (hk _ (by simp)) (fun k h => hk k (by simp [h])) hw (layout options stream).lines
  obtain ⟨hreach, hline₁⟩ := Reaches.of_execAll hplaced.append_left (test_straight _) hm₁
  have hbranch : m₁.step? s (layout options stream).lines
      = m₁.exec s (layout options stream).lines (.bcond .eq label) := by
    refine Machine.step?_of_inst (l := .inst (.bcond .eq label)) ?_ rfl
    rw [hline₁, ← List.length_map (f := Line.inst)]
    exact hplaced.append_right.head
  simp only [Machine.exec, Machine.holds, hcompared, hzero, beq_iff_eq] at hbranch
  split at he
  · next hw0 =>
    obtain ⟨u, hu, rfl⟩ := he
    cases hu.symm.trans ht
    rw [if_pos hw0, Machine.jump, hline] at hbranch
    exact ⟨_, hreach.trans (.single hbranch), h₁.congr rfl rfl rfl rfl, .inl ⟨htn, rfl⟩⟩
  · next hw0 =>
    subst he
    rw [if_neg hw0] at hbranch
    refine ⟨_, hreach.trans (.single hbranch), h₁.congr rfl rfl rfl rfl, .inr ⟨rfl, ?_⟩⟩
    simp only [Machine.next, hline₁, List.length_append, List.length_map, List.length_singleton]
    omega

/-- The lines of an instruction, its label line passed, do what the instruction does. -/
theorem lines_simulate (h : b.Holds m e) (hb : b.size ≤ UInt32.size)
    (hf : Faultless (.ofStream stream) true i) (hprint : i.opcode ≠ .print)
    (hjump : i.opcode = .jump → i.a1.isMemory = false)
    (hk : ∀ k, .key k ∈ touches (.ofStream stream) true i → k ∈ b.keys)
    (hzero : s.literal "0" = 0)
    (hplaced : Placed (layout options stream).lines m.line
      (Lowering.lines b.register (.ofStream stream) i))
    (he : e.exec? s.literal i = some e') :
    ∃ after, Reaches s (layout options stream).lines m after ∧ b.Holds after e'
      ∧ ((e'.counter < stream.length
          ∧ after.line = (layout options stream).lineFor e'.counter)
        ∨ (e'.counter = e.counter + 1
          ∧ after.line = m.line + (Lowering.lines b.register (.ofStream stream) i).length)) := by
  rcases hop : i.opcode with _ | _ | _ | _ | _ | _ | _ | _ | tag
  case jump =>
    obtain ⟨t, rfl, htn, hreach⟩ := jump_simulates hf hop (hjump hop) hplaced he
    exact ⟨_, hreach, h.congr rfl rfl rfl rfl, .inl ⟨htn, rfl⟩⟩
  case jumpIfFalse => exact jumpIfFalse_simulates h hb hf hop hk hzero hplaced he
  case print => exact absurd hop hprint
  case unknown =>
    have hlines : Lowering.lines b.register (.ofStream stream) i
        = [.comment (unsupportedText tag i)] := by
      rw [Lowering.lines, hop]
    simp only [Execution.exec?, hop, Option.some.injEq] at he
    subst he
    rw [hlines] at hplaced ⊢
    exact ⟨_, .single (Machine.step?_of_quiet hplaced.head rfl), h.congr rfl rfl rfl rfl,
      .inr ⟨rfl, rfl⟩⟩
  all_goals
    obtain ⟨after, hreach, h', hcounter, hline⟩ := h.assigns hb (by rw [hop]; rfl) hk hplaced he
    exact ⟨after, hreach, h', .inr ⟨hcounter, hline⟩⟩

/-- The machine stands where the execution's next instruction begins, or after the last one, and
holds what the execution holds. -/
structure Agrees (p : Program) (m : Machine) (e : Execution) : Prop where
  line : m.line = p.lineFor e.counter
  holds : p.bindings.Holds m e

theorem Agrees.step (h : (layout options stream).Agrees m e)
    (hf : ∀ i ∈ stream, Faultless (.ofStream stream) true i) (hstrict : options.strict = true)
    (hb : (layout options stream).bindings.size ≤ UInt32.size)
    (hprint : ∀ i ∈ stream, i.opcode ≠ .print)
    (hjump : ∀ i ∈ stream, i.opcode = .jump → i.a1.isMemory = false)
    (hzero : s.literal "0" = 0) (he : e.step? s.literal stream = some e') :
    e'.counter ≤ stream.length ∧ ∃ after, Reaches s (layout options stream).lines m after
      ∧ (layout options stream).Agrees after e' := by
  obtain ⟨i, hi, he⟩ := Option.bind_eq_some_iff.1 he
  have hmem := List.mem_of_getElem? hi
  have hlt := (List.getElem?_eq_some_iff.1 hi).1
  have hk (k : Key) := mem_bindings_layout (k := k) hmem (hstrict ▸ hf i hmem)
  rw [hstrict] at hk
  have hplaced := placed_block options hi
  have hnext := lineFor_succ options hi
  rw [← h.line] at hplaced hnext
  have hlabel := (Machine.Path.of_labelLines (s := s) (P := fun _ => True) (fun _ => trivial)
    hplaced).reaches
  have h₀ : (layout options stream).bindings.Holds { m with line := m.line
      + (Generator.labelLines (.ofStream stream) e.counter).length } e :=
    h.holds.congr rfl rfl rfl rfl
  obtain ⟨after, hreach, h', hto | hto⟩ := lines_simulate h₀ hb (hf i hmem) (hprint i hmem)
    (hjump i hmem) hk hzero hplaced.append_right he
  · exact ⟨Nat.le_of_lt hto.1, after, hlabel.trans hreach, hto.2, h'⟩
  · refine ⟨hto.1 ▸ hlt, after, hlabel.trans hreach, ?_, h'⟩
    rw [hto.1, hto.2, hnext, block, List.length_append, Nat.add_assoc]

/-- So many instructions, one after the other. -/
theorem Agrees.steps (hf : ∀ i ∈ stream, Faultless (.ofStream stream) true i)
    (hstrict : options.strict = true) (hb : (layout options stream).bindings.size ≤ UInt32.size)
    (hprint : ∀ i ∈ stream, i.opcode ≠ .print)
    (hjump : ∀ i ∈ stream, i.opcode = .jump → i.a1.isMemory = false)
    (hzero : s.literal "0" = 0) (k : Nat) (h : (layout options stream).Agrees m e)
    (hle : e.counter ≤ stream.length) (he : e.steps? s.literal stream k = some e') :
    e'.counter ≤ stream.length ∧ ∃ after, Reaches s (layout options stream).lines m after
      ∧ (layout options stream).Agrees after e' := by
  induction k generalizing e m with
  | zero =>
    cases he
    exact ⟨hle, m, .refl m, h⟩
  | succ k ih =>
    obtain ⟨e₁, he₁, he⟩ := Option.bind_eq_some_iff.1 he
    obtain ⟨hle₁, m₁, hreach, h₁⟩ := h.step hf hstrict hb hprint hjump hzero he₁
    obtain ⟨hle', after, hreach', h'⟩ := ih h₁ hle₁ he
    exact ⟨hle', after, hreach.trans hreach', h'⟩

/-- Strict programs without printing and computed jumps do what their streams do, for as long as
these run: started together, the machine comes to agree with the execution after any number of
instructions, and the execution goes on until it is past the last one. -/
theorem simulates {p : Program} (hstrict : options.strict = true)
    (hp : generate options stream = .ok p) (hb : p.bindings.size ≤ UInt32.size)
    (hprint : ∀ i ∈ stream, i.opcode ≠ .print)
    (hjump : ∀ i ∈ stream, i.opcode = .jump → i.a1.isMemory = false)
    (hzero : s.literal "0" = 0) (hstart : e.counter = 0) (h : p.Agrees m e) (k : Nat)
    (he : e.steps? s.literal stream k = some e') :
    (∃ after, Reaches s p.lines m after ∧ p.Agrees after e') ∧ e'.counter ≤ stream.length
      ∧ (e'.counter < stream.length → (e'.step? s.literal stream).isSome = true) := by
  obtain ⟨hf, rfl⟩ := generate_eq_ok_iff.1 hp
  rw [hstrict] at hf
  obtain ⟨hle, hreach⟩ := h.steps hf hstrict hb hprint hjump hzero k (by omega) he
  refine ⟨hreach, hle, fun hlt => ?_⟩
  have hmem := List.getElem_mem hlt
  obtain ⟨e₂, he₂⟩ := Execution.exec?_isSome s.literal e' (hf _ hmem) (hjump _ hmem)
  rw [Execution.step?, List.getElem?_eq_getElem hlt, Option.bind_some, he₂]
  rfl

/-- Counts a name down from two and keeps its last word in a cell. -/
def countdown : List Instruction :=
  [.ofTokens "ASSIGN" "#2" "n" "", .ofTokens "SUB" "n" "#1" "n", .ofTokens "JPF" "n" "4" "",
    .ofTokens "JP" "1" "" "", .ofTokens "ASSIGN" "n" "@cell" ""]

/-- The whole run of a loop that is left after two rounds. -/
theorem simulates_countdown : ∃ p after e',
    generate .default countdown = .ok p
      ∧ (⟨0, fun _ => 0, fun _ => 0, []⟩ : Execution).steps? Setting.sample.literal countdown 7
        = some e'
      ∧ e'.counter = 5 ∧ Reaches .sample p.lines (.fresh 3 fun _ => 0) after
      ∧ p.Agrees after e' := by
  have hp : generate .default countdown = .ok (layout .default countdown) :=
    generate_of_faultless (by decide)
  have hagrees : (layout .default countdown).Agrees (.fresh 3 fun _ => 0)
      ⟨0, fun _ => 0, fun _ => 0, []⟩ := by
    refine ⟨rfl, rfl, fun v r _ => ?_⟩
    cases r <;> rfl
  obtain ⟨⟨after, hreach, hafter⟩, -, -⟩ := simulates (s := .sample) rfl hp (by decide)
    (by decide) (by decide) (by decide) rfl hagrees 7 rfl
  exact ⟨_, after, _, hp, rfl, rfl, hreach, hafter⟩

end Program

end Lines

end ThreeAddress
