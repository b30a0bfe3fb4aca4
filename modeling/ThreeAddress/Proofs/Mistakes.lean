import ThreeAddress.Proofs.Layout

/-!
# Mistakes

Whether an instruction is faulty can be told without lowering it: from its operands, its index and
the length of the stream (`Instruction.mistake?`). Lowering finds the same mistake while it asks for
registers and labels (`map_error_touches`), since the table of labels has the target of each jump of
the stream, and declares those that lie inside. So generation fails exactly on streams with a
mistake, and reports that of the first instruction that has one (`generate_reports`).
-/

namespace ThreeAddress

namespace Operand

def isImmediate : Operand → Bool
  | .immediate _ => true
  | _ => false

/-- The operand is a name of ASCII digits that spells one of the first `n` indices. An index has 64
bits. -/
def isIndex (n : Nat) : Operand → Bool
  | .symbol name =>
    Text.isNumeral name.toList && decide (Nat.ofDigitChars 10 name.toList 0 < min n UInt64.size)
  | _ => false

theorem isIndex_eq (n : Nat) (a : Operand) : a.isIndex n = a.address?.any (· < n) := by
  cases a with
  | symbol name =>
    simp only [isIndex, address?, Text.readNumeral?, Nat.lt_min]
    cases Text.isNumeral name.toList with
    | false => rfl
    | true =>
      by_cases h : Nat.ofDigitChars 10 name.toList 0 < UInt64.size <;> simp [h, Option.filter]
  | empty | immediate | memory => rfl

end Operand

section Checks

variable (index : Nat)

/-- The slot has to be used. -/
def missing? (opcode : Opcode) (slot : Nat) (a : Operand) : Option CompileError :=
  if a.isEmpty then some (.missingOperand index opcode slot) else none

/-- The operand must not be a literal. -/
def literal? (a : Operand) : Option CompileError :=
  if a.isImmediate then some (.invalidDestination index a) else none

/-- The operand has to spell an index of the stream, if the options are strict. -/
def astray? (n : Nat) (strict : Bool) (a : Operand) : Option CompileError :=
  if strict && !a.isIndex n then some (.unresolvedTarget index a) else none

end Checks

/-- The first check that an instruction fails in a stream of length `n`. -/
def Instruction.mistake? (n : Nat) (strict : Bool) (index : Nat) (i : Instruction) :
    Option CompileError :=
  match i.opcode with
  | .assign =>
    match i.a2 with
    | .memory _ => missing? index i.opcode 1 i.a1
    | dest => missing? index i.opcode 2 dest <|> literal? index dest
        <|> missing? index i.opcode 1 i.a1
  | .add | .sub | .mult | .lessThan =>
    missing? index i.opcode 3 i.a3 <|> literal? index i.a3 <|> missing? index i.opcode 1 i.a1
      <|> missing? index i.opcode 2 i.a2
  | .print => missing? index i.opcode 1 i.a1
  | .jumpIfFalse => missing? index i.opcode 1 i.a1 <|> astray? index n strict i.a2
  | .jump =>
    match i.a1 with
    | .memory _ => none
    | target => astray? index n strict target
  | .unknown _ => none

namespace Lowering

variable {labels : Labels} {strict : Bool} {stream : List Instruction} {i : Instruction}

theorem map_error_reads (index : Nat) (opcode : Opcode) (slot : Nat) (a : Operand) :
    (fault? (reads slot a)).map (Fault.error index opcode) = missing? index opcode slot a := by
  cases a <;> rfl

theorem map_error_writes (index : Nat) (opcode : Opcode) (slot : Nat) (a : Operand) :
    (fault? (writes slot a)).map (Fault.error index opcode)
      = (missing? index opcode slot a).or (literal? index a) := by
  cases a <;> rfl

/-- A target that is registered is declared as soon as it lies inside the stream. -/
theorem map_error_branches {a : Operand} (h : ∀ t, a.address? = some t → t ∈ labels.targets)
    (strict : Bool) (index : Nat) (opcode : Opcode) :
    (fault? (branches labels strict a)).map (Fault.error index opcode)
      = astray? index labels.streamLength strict a := by
  rw [astray?, Operand.isIndex_eq]
  rcases ha : a.address? with _ | t
  · have hfind : Target.find labels a = .notNumeric := by simp only [Target.find, ha]
    cases strict <;> simp only [branches, hfind] <;> rfl
  · by_cases hlt : t < labels.streamLength <;> cases strict <;>
      simp [branches, Target.find, ha, Labels.declared?, Labels.registered?, h t ha, hlt, fault?,
        Fault.error]

/-- Lowering an instruction of a stream finds its mistake and no other. -/
theorem map_error_touches (hi : i ∈ stream) (strict : Bool) (index : Nat) :
    (fault? (touches (.ofStream stream) strict i)).map (Fault.error index i.opcode)
      = i.mistake? stream.length strict index := by
  have htarget (t : Nat) (ht : i.jumpAddress? = some t) : t ∈ (Labels.ofStream stream).targets :=
    Labels.mem_targets_ofStream.2 ⟨i, hi, ht⟩
  rw [← Labels.streamLength_ofStream stream]
  obtain ⟨opcode, a1, a2, a3, place⟩ := i
  cases opcode with
  | assign =>
    cases a2 with
    | memory v =>
      simp only [touches, Instruction.mistake?, List.cons_append, fault?, fault?_append,
        Option.or_none, map_error_reads]
    | empty | immediate l | symbol v =>
      simp only [touches, Instruction.mistake?, fault?_append, Option.orElse_eq_orElse,
        Option.orElse_eq_or, Option.map_or, Option.or_assoc, map_error_reads, map_error_writes]
  | add | sub | mult | lessThan =>
    simp only [touches, Instruction.mistake?, List.cons_append, fault?, fault?_append,
      Option.orElse_eq_orElse, Option.orElse_eq_or, Option.map_or, Option.or_assoc,
      map_error_reads, map_error_writes]
  | jumpIfFalse =>
    simp only [touches, Instruction.mistake?, List.cons_append, fault?, fault?_append,
      Option.orElse_eq_orElse, Option.orElse_eq_or, Option.map_or, map_error_reads,
      map_error_branches htarget]
  | jump =>
    have hbranches := map_error_branches (a := a1) htarget strict index .jump
    cases a1 with
    | memory v => rfl
    | empty | immediate l | symbol v => exact hbranches
  | print => exact map_error_reads index .print 1 a1
  | unknown tag => rfl

theorem faultless_iff_mistake? (hi : i ∈ stream) (index : Nat) :
    Faultless (.ofStream stream) strict i ↔ i.mistake? stream.length strict index = none := by
  rw [← map_error_touches hi, Option.map_eq_none_iff, Faultless]

end Lowering

/-- The instruction is the first of the stream that has a mistake. -/
structure FirstMistake (options : Options) (stream : List Instruction) (k : Nat) (i : Instruction)
    (e : CompileError) : Prop where
  getElem? : stream[k]? = some i
  mistake : i.mistake? stream.length options.strict k = some e
  before : ∀ j < k, ∀ i' : Instruction, stream[j]? = some i' →
    i'.mistake? stream.length options.strict j = none

open Lowering

variable {options : Options} {stream : List Instruction} {k : Nat} {i : Instruction}

theorem firstMistake_iff {e : CompileError} : FirstMistake options stream k i e
    ↔ ∃ f, FirstFault options stream k i f ∧ e = f.error k i.opcode := by
  refine ⟨fun ⟨hi, he, hbefore⟩ => ?_, fun ⟨f, ⟨hi, hf, hbefore⟩, he⟩ => ⟨hi, ?_, ?_⟩⟩
  · rw [← map_error_touches (List.mem_of_getElem? hi)] at he
    obtain ⟨f, hf, rfl⟩ := Option.map_eq_some_iff.1 he
    refine ⟨f, ⟨hi, hf, fun i' hi' => ?_⟩, rfl⟩
    obtain ⟨j, hj, rfl⟩ := List.mem_take_iff_getElem.1 hi'
    have hlt : j < stream.length := by omega
    exact (faultless_iff_mistake? (List.getElem_mem hlt) j).2
      (hbefore j (by omega) _ (List.getElem?_eq_getElem hlt))
  · rw [← map_error_touches (List.mem_of_getElem? hi), hf, he, Option.map_some]
  · intro j hj i' hi'
    have htake : i' ∈ stream.take k := by
      refine List.mem_of_getElem? (i := j) ?_
      rw [List.getElem?_take_of_lt hj, hi']
    exact (faultless_iff_mistake? (List.mem_of_getElem? hi') j).1 (hbefore i' htake)

/-- Generation fails exactly if some instruction has a mistake. It reports the mistake of the first
one that has any, together with its index. -/
theorem Program.generate_reports (options : Options) (stream : List Instruction) :
    ((∃ e, generate options stream = .error e) ↔ ∃ (k : Nat) (i : Instruction),
      stream[k]? = some i ∧ (i.mistake? stream.length options.strict k).isSome)
    ∧ ∀ e, generate options stream = .error e
      ↔ ∃ k i, FirstMistake options stream k i e ∧ e.index? = some k := by
  have hreport (e : CompileError) : generate options stream = .error e
      ↔ ∃ k i, FirstMistake options stream k i e ∧ e.index? = some k := by
    rw [generate_eq_error_iff]
    refine ⟨fun ⟨k, i, f, hfirst, he⟩ => ⟨k, i, firstMistake_iff.2 ⟨f, hfirst, he⟩, ?_⟩,
      fun ⟨k, i, hfirst, _⟩ => ⟨k, i, firstMistake_iff.1 hfirst⟩⟩
    rw [he, Fault.index?_error]
  refine ⟨⟨fun ⟨e, h⟩ => ?_, fun ⟨k, i, hi, h⟩ => ?_⟩, hreport⟩
  · obtain ⟨k, i, hfirst, -⟩ := (hreport e).1 h
    exact ⟨k, i, hfirst.getElem?, hfirst.mistake ▸ rfl⟩
  · rcases generate_cases options stream with ⟨hall, -⟩ | ⟨_, _, _, -, he⟩
    · have hmem := List.mem_of_getElem? hi
      rw [(faultless_iff_mistake? hmem k).1 (hall i hmem)] at h
      cases h
    · exact ⟨_, he⟩

/-- A literal destination is found before a source that is not there, and both before the jump that
follows. -/
example : Program.generate .default [.ofTokens "PRINT" "#1" "" "", .ofTokens "ADD" "" "b" "#3",
    .ofTokens "JP" "7" "" ""] = .error (.invalidDestination 1 (.immediate "3")) :=
  rfl

end ThreeAddress
