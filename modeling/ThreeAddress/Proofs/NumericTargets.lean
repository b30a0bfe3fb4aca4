import ThreeAddress.Proofs.Blocks
import ThreeAddress.Proofs.Names

/-!
# Branches that lenient mode keeps

A direct jump spells its target as a name of digits or does not spell one. Discovery registers every
target that fits into a word, and lowering asks the same table, so in lenient mode the block of a
jump ends with one branch to the number that is spelled, inside the stream or not, and has no branch
otherwise (`Program.numeric_branches`). A numeral of `2 ^ 64` or more is not registered and its
branch is dropped like that to any other name (`Program.numeral_dropped`).
-/

namespace ThreeAddress

open Assembly (Register Inst Line)

/-- The number that a name of digits spells, however large. -/
def Operand.numeral? : Operand → Option Nat
  | .symbol name => Text.readNumeral? name.toList
  | .empty | .immediate _ | .memory _ => none

theorem Operand.address?_eq_filter (a : Operand) :
    a.address? = a.numeral?.filter (· < UInt64.size) := by
  cases a <;> rfl

namespace Instruction

/-- The operand that a jump names its target with, unless the target is loaded from memory. -/
def directTarget? (i : Instruction) : Option Operand :=
  match i.opcode with
  | .jump => if i.a1.isMemory then none else some i.a1
  | .jumpIfFalse => some i.a2
  | _ => none

/-- The branch that a direct jump is lowered to. -/
def branchTo (i : Instruction) (label : String) : Inst :=
  if i.opcode = .jump then .b label else .bcond .eq label

/-- What stands before the branch: the test of a jump on false. -/
def condition (register : Key → Register) (i : Instruction) : List Inst :=
  if i.opcode = .jumpIfFalse then Lowering.test register i else []

theorem cases_of_directTarget? {i : Instruction} {target : Operand}
    (h : i.directTarget? = some target) :
    (i.opcode = .jump ∧ i.a1 = target ∧ target.isMemory = false)
      ∨ (i.opcode = .jumpIfFalse ∧ i.a2 = target) := by
  obtain ⟨op, a1, a2, a3, place⟩ := i
  cases op with
  | jump =>
    cases a1 with
    | memory v => cases h
    | empty | immediate l | symbol v =>
      cases h
      exact .inl ⟨rfl, rfl, rfl⟩
  | jumpIfFalse =>
    cases h
    exact .inr ⟨rfl, rfl⟩
  | assign | add | sub | mult | lessThan | print | unknown tag => cases h

theorem jumpAddress?_eq {i : Instruction} {target : Operand} (h : i.directTarget? = some target) :
    i.jumpAddress? = target.address? := by
  rcases cases_of_directTarget? h with ⟨hop, ha, -⟩ | ⟨hop, ha⟩ <;> simp [jumpAddress?, hop, ha]

theorem condition_straight (register : Key → Register) (i : Instruction) :
    ∀ j ∈ i.condition register, j.isStraight = true := by
  unfold condition
  split
  · exact Lowering.test_straight register
  · exact fun j hj => (List.not_mem_nil hj).elim

end Instruction

namespace Lowering

variable {register : Key → Register} {labels : Labels} {stream : List Instruction}
  {i : Instruction} {target : Operand}

theorem lines_direct (h : i.directTarget? = some target) : lines register labels i
    = (i.condition register
      ++ (Target.find labels target).label?.toList.map i.branchTo).map .inst := by
  obtain ⟨op, a1, a2, a3, place⟩ := i
  rcases Instruction.cases_of_directTarget? h with ⟨rfl, rfl, hmem⟩ | ⟨rfl, rfl⟩
  · cases a1 with
    | memory v => cases hmem
    | empty | immediate l | symbol v => rfl
  · rfl

/-- The table of the stream has a label for every number that one of its jumps spells. -/
theorem Target.label?_find_ofStream (hi : i ∈ stream) (h : i.directTarget? = some target) :
    (Target.find (.ofStream stream) target).label? = target.address?.map Labels.name := by
  rcases ht : target.address? with _ | t
  · simp only [Target.find, ht, Target.label?, Option.map_none]
  · have hjump : i.jumpAddress? = some t := by rw [Instruction.jumpAddress?_eq h, ht]
    exact Target.label?_find_of_mem ht (Labels.mem_targets_ofStream.2 ⟨i, hi, hjump⟩)

end Lowering

namespace Program

open Lowering

variable {entry : String} {stream : List Instruction} {p : Program} {index : Nat}
  {i : Instruction} {target : Operand}

/-- The lines of a direct jump in lenient mode. Before the branch there may be the label of the
instruction, and there is the test of a jump on false. One branch follows if the target is a numeral
below `2 ^ 64`, to the label of that number; for any other target nothing follows. -/
theorem numeric_branches (hp : generate ⟨false, entry⟩ stream = .ok p)
    (hi : stream[index]? = some i) (htarget : i.directTarget? = some target) :
    ∃ front, front = (if index ∈ p.labels.targets then [.label (Labels.name index)] else [])
        ++ (i.condition p.bindings.register).map .inst
      ∧ (∀ l ∈ front, ∀ j, l.inst? = some j → j.isStraight = true)
      ∧ (∀ t, target.numeral? = some t → t < UInt64.size →
        p.linesFor? index = some (front ++ [.inst (i.branchTo (Labels.name t))]))
      ∧ ((∀ t, target.numeral? = some t → UInt64.size ≤ t) → p.linesFor? index = some front) := by
  obtain ⟨-, rfl⟩ := generate_eq_ok_iff.1 hp
  have hlabel := Target.label?_find_ofStream (List.mem_of_getElem? hi) htarget
  have hlines := linesFor?_eq ⟨false, entry⟩ hi
  rw [lines_direct htarget, hlabel, List.map_append, ← List.append_assoc] at hlines
  refine ⟨_, rfl, fun l hl j hj => ?_, fun t ht hlt => ?_, fun hno => ?_⟩
  · rcases List.mem_append.1 hl with hl | hl
    · split at hl
      · rw [List.mem_singleton.1 hl] at hj
        cases hj
      · cases hl
    · obtain ⟨j', hj', rfl⟩ := List.mem_map.1 hl
      cases hj
      exact Instruction.condition_straight _ i j hj'
  · have haddress : target.address? = some t := by
      rw [Operand.address?_eq_filter, ht, Option.filter_some, if_pos (by simpa using hlt)]
    rw [hlines, haddress]
    rfl
  · have haddress : target.address? = none := by
      rw [Operand.address?_eq_filter, Option.filter_eq_none_iff]
      exact fun t ht => by simpa using hno t ht
    rw [hlines, haddress]
    exact congrArg some (List.append_nil _)

/-- A leading zero, the greatest word, and the first number that is none. -/
def farJumps : List Instruction :=
  [.ofTokens "JPF" "c" "02" "", .ofTokens "JP" "18446744073709551615" "" "",
    .ofTokens "JP" "18446744073709551616" "" ""]

theorem numeric_branches_farJumps : ∃ p, generate ⟨false, "_start"⟩ farJumps = .ok p
    ∧ p.linesFor? 0 = some [.inst (.mov (.x 0) (.register (.x 1))),
      .inst (.cmp (.x 0) (.literal "0")), .inst (.bcond .eq "LABEL_2")]
    ∧ p.linesFor? 1 = some [.inst (.b "LABEL_18446744073709551615")]
    ∧ p.linesFor? 2 = some [.label "LABEL_2"] := by
  have hp : generate ⟨false, "_start"⟩ farJumps = .ok (layout ⟨false, "_start"⟩ farJumps) :=
    generate_of_faultless (by decide)
  obtain ⟨_, rfl, -, htest, -⟩ := numeric_branches hp (show farJumps[0]? = _ from rfl) rfl
  obtain ⟨_, rfl, -, hkept, -⟩ := numeric_branches hp (show farJumps[1]? = _ from rfl) rfl
  obtain ⟨_, rfl, -, -, hdropped⟩ := numeric_branches hp (show farJumps[2]? = _ from rfl) rfl
  refine ⟨_, hp, htest 2 (by decide) (by decide),
    hkept 18446744073709551615 (by decide) (by decide), hdropped fun t ht => ?_⟩
  have hvalue : Operand.numeral? (.symbol "18446744073709551616") = some UInt64.size := by decide
  exact Nat.le_of_eq (Option.some.inj (hvalue.symm.trans ht))

/-- Not every numeral keeps its branch. -/
theorem numeral_dropped : ∃ p t, generate ⟨false, "_start"⟩ (farJumps.drop 2) = .ok p
    ∧ ((farJumps.drop 2)[0]?.bind Instruction.directTarget?).bind Operand.numeral? = some t
    ∧ p.linesFor? 0 = some [] :=
  ⟨layout ⟨false, "_start"⟩ (farJumps.drop 2), UInt64.size, generate_of_faultless (by decide),
    by decide, by decide⟩

end Program

end ThreeAddress
