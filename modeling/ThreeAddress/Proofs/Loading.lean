import ThreeAddress.Proofs.Run

/-!
# Values in registers

An operand has a value in a machine once its name has a register (`valueIn?`), and loading the
operand brings that value into the register asked for (`execAll_load`). With fewer than `2 ^ 32`
keys, writing the register of one key leaves those of all others alone (`get_set_register`). None
of the instructions that load, compute and store branches (`insts_straight`).
-/

namespace ThreeAddress

open Assembly (Register Inst Line Word Setting Machine)
open Assembly.Machine (execAll)

/-- The operators that give a destination a word and pass on to the next instruction. -/
def Opcode.assigns : Opcode → Bool
  | .assign | .add | .sub | .mult | .lessThan => true
  | _ => false

namespace Lowering

variable (register : Key → Register) {s : Setting} {lines : List Line} {m : Machine}

/-- The value that an operand has in a machine that keeps names in registers. -/
def valueIn? (s : Setting) (m : Machine) : Operand → Option Word
  | .empty => none
  | .immediate literal => some (s.literal literal)
  | .memory name => some (m.memory.load (m.get (register (.value name))))
  | .symbol name => some (m.get (register (.value name)))

theorem valueIn?_eq_none {a : Operand} : valueIn? register s m a = none ↔ a = .empty := by
  cases a <;> simp [valueIn?]

theorem execAll_load (rd : Register) {a : Operand} {w : Word}
    (h : valueIn? register s m a = some w) :
    execAll s lines (load register rd a) m = some (m.set rd w).next := by
  cases a with
  | empty => cases h
  | immediate | memory | symbol =>
    cases h
    rfl

theorem load_straight {rd : Register} {a : Operand} {i : Inst} (h : i ∈ load register rd a) :
    i.isStraight = true := by
  cases a <;> simp [load] at h <;> simp [h, Inst.isStraight]

theorem writeBack_straight {a : Operand} {i : Inst} (h : i ∈ writeBack register a) :
    i.isStraight = true := by
  cases a <;> simp [writeBack] at h
  simp [h, Inst.isStraight]

theorem insts_straight {labels : Labels} {i : Instruction} (hi : i.opcode.assigns = true) :
    ∀ j ∈ insts register labels i, j.isStraight = true := by
  intro j hj
  obtain ⟨op, a1, a2, a3, place⟩ := i
  cases op with
  | assign =>
    rcases List.mem_append.1 hj with hj | hj
    · exact load_straight register hj
    · exact writeBack_straight register hj
  | add | sub | mult | lessThan =>
    rcases List.mem_append.1 hj with hj | hj
    · rcases List.mem_append.1 hj with hj | hj
      · rcases List.mem_append.1 hj with hj | hj <;> exact load_straight register hj
      · simp only [List.mem_cons, List.not_mem_nil, or_false] at hj
        rcases hj with rfl | rfl <;> rfl
    · exact writeBack_straight register hj
  | jump | jumpIfFalse | print | unknown tag => cases hi

/-- What a jump on false does before it branches. -/
def test (i : Instruction) : List Inst :=
  load register (register (.scratch .cond)) i.a1 ++ [.cmp (register (.scratch .cond)) (.int 0)]

theorem test_straight {i : Instruction} :
    ∀ j ∈ test register i, j.isStraight = true := by
  intro j hj
  rcases List.mem_append.1 hj with hj | hj
  · exact load_straight register hj
  · rw [List.mem_singleton.1 hj]
    rfl

end Lowering

namespace Bindings

variable {b : Bindings} {m : Machine}

/-- Reading one key's register after another's was written. -/
theorem get_set_register (hb : b.size ≤ UInt32.size) {j k : Key} (hj : j ∈ b.keys) (hk : k ∈ b.keys)
    (w : Word) : (m.set (b.register j) w).get (b.register k)
      = if k = j then w else m.get (b.register k) := by
  split
  · next h =>
    rw [h]
    exact Machine.get_set_self m _ w
  · next h =>
    have hne := register_ne hb hk hj h
    exact Machine.get_set_of_ne w fun h => hne (congrArg Register.x h)

end Bindings

namespace Assembly.Machine

theorem get_congr {m after : Machine} (h : after.x = m.x) (r : Register) :
    after.get r = m.get r := by
  cases r <;> simp [get, h]

end Assembly.Machine

end ThreeAddress
