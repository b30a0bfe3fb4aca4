import ThreeAddress.Proofs.Blocks

/-!
# Strict and lenient branches

Strict mode asks for all that lenient mode asks for, and for one thing more if a branch has no
declared target (`touches_strict`). So an instruction without a fault in strict mode is lowered
alike in both, and a generator that comes to it in one mode holds what it would hold in the other
(`before_lenient`). A stream that strict mode accepts has the same program in lenient mode, and
otherwise the first fault of strict mode is that of lenient mode or a branch that only strict mode
refuses (`modes_agree`).
-/

namespace ThreeAddress

namespace Lowering

variable {labels : Labels} {i : Instruction} {a : Operand}

theorem branches_lenient (labels : Labels) (a : Operand) : branches labels false a = [] := by
  unfold branches
  cases Target.find labels a <;> rfl

theorem branches_strict (labels : Labels) (a : Operand) :
    branches labels true a = [] ∨ branches labels true a = [.fault (.unresolved a)] := by
  unfold branches
  cases Target.find labels a <;> simp

/-- What strict mode asks for besides comes last. -/
theorem touches_strict (labels : Labels) (i : Instruction) :
    touches labels true i = touches labels false i
      ∨ ∃ target, touches labels true i
        = touches labels false i ++ [.fault (.unresolved target)] := by
  obtain ⟨op, a1, a2, a3, place⟩ := i
  cases op with
  | jumpIfFalse =>
    simp only [touches, branches_lenient, List.append_nil]
    rcases branches_strict labels a2 with h | h
    · exact .inl (by rw [h, List.append_nil])
    · exact .inr ⟨a2, by rw [h]⟩
  | jump =>
    cases a1 with
    | memory v => exact .inl rfl
    | empty | immediate l | symbol v =>
      simp only [touches, branches_lenient]
      rcases branches_strict labels _ with h | h
      · exact .inl h
      · exact .inr ⟨_, h⟩
  | assign | add | sub | mult | lessThan | print | unknown tag => exact .inl rfl

theorem touches_of_faultless (h : Faultless labels true i) :
    touches labels false i = touches labels true i := by
  rcases touches_strict labels i with heq | ⟨target, heq⟩
  · exact heq.symm
  · rw [Faultless, heq, fault?_append, Option.or_eq_none_iff] at h
    cases h.2

theorem Faultless.lenient (h : Faultless labels true i) : Faultless labels false i := by
  rw [Faultless, touches_of_faultless h]
  exact h

/-- A fault of lenient mode is found first in strict mode too. -/
theorem fault_strict {f : Fault} (h : fault? (touches labels false i) = some f) :
    fault? (touches labels true i) = some f := by
  rcases touches_strict labels i with heq | ⟨target, heq⟩
  · rw [heq, h]
  · rw [heq, fault?_append, h]
    rfl

theorem fault_lenient {f : Fault} (h : fault? (touches labels true i) = some f)
    (hf : ∀ target, f ≠ .unresolved target) : fault? (touches labels false i) = some f := by
  rcases touches_strict labels i with heq | ⟨target, heq⟩
  · rw [← heq, h]
  · rw [heq, fault?_append] at h
    cases hfault : fault? (touches labels false i) with
    | none =>
      rw [hfault] at h
      exact absurd (Option.some.inj h).symm (hf target)
    | some f' =>
      rw [hfault] at h
      exact h

theorem lower_lenient (h : Faultless labels true i) (entry : String) (b : Bindings) (index : Nat) :
    i.lower labels ⟨false, entry⟩ b index = i.lower labels ⟨true, entry⟩ b index := by
  simp only [Instruction.lower, touches_of_faultless h]

end Lowering

namespace Generator

open Lowering

variable {entry : String} {stream : List Instruction} {k : Nat} {g : Generator}

/-- The same generator with other options. -/
def withOptions (g : Generator) (options : Options) : Generator := { g with options }

theorem before_succ (options : Options) (stream : List Instruction) (k : Nat) :
    before options stream (k + 1) = (before options stream k).after .emitNext := by
  rw [before, List.replicate_succ', ← List.cons_append, afterAll_append]
  rfl

/-- Both modes leave the same behind when they try an instruction that strict mode accepts. -/
theorem after_emitNext_lenient (htried : Tried ⟨true, entry⟩ stream k g) (hk : k < stream.length)
    (h : Faultless (.ofStream stream) true stream[k]) :
    (g.withOptions ⟨false, entry⟩).after .emitNext
      = (g.after .emitNext).withOptions ⟨false, entry⟩ := by
  obtain ⟨s, o, p, b, l, ls, ss, es⟩ := g
  obtain ⟨hs, ho, hp, hl, -, -, -⟩ := htried
  simp only at hs ho hp hl
  subst hs ho hp hl
  have hresult := result_lower (show Faultless _ (⟨true, entry⟩ : Options).strict _ from h) b k
  simp only [after, Call.make, emitNext, withOptions, Phase.nextIndex_tried,
    show Phase.emitting k = .tried (k + 1) from rfl, Phase.tried_precedes hk, dite_true,
    lower_lenient h, hresult]

/-- As long as strict mode accepts the instructions, the two modes hold the same. -/
theorem before_lenient (hk : k ≤ stream.length)
    (h : ∀ i ∈ stream.take k, Faultless (.ofStream stream) true i) :
    before ⟨false, entry⟩ stream k
      = (before ⟨true, entry⟩ stream k).withOptions ⟨false, entry⟩ := by
  induction k with
  | zero => rfl
  | succ k ih =>
    have hlt : k < stream.length := hk
    rw [← List.take_append_getElem hlt] at h
    have hprev := ih (Nat.le_of_lt hlt) fun i hi => h i (List.mem_append_left _ hi)
    have hthis : Faultless (.ofStream stream) true stream[k] :=
      h _ (List.mem_append_right _ (List.mem_singleton.2 rfl))
    rw [before_succ, hprev, before_succ]
    exact after_emitNext_lenient (tried_before _ (Nat.le_of_lt hlt)) hlt hthis

end Generator

namespace FirstFault

open Lowering

variable {entry : String} {stream : List Instruction} {k : Nat} {i : Instruction} {f : Fault}

theorem lenient (h : FirstFault ⟨true, entry⟩ stream k i f)
    (hf : ∀ target, f ≠ .unresolved target) : FirstFault ⟨false, entry⟩ stream k i f :=
  ⟨h.getElem?, fault_lenient h.fault hf, fun j hj => (h.before j hj).lenient⟩

/-- Strict mode fails no later than lenient mode. -/
theorem exists_strict (h : FirstFault ⟨false, entry⟩ stream k i f) :
    ∃ j i' f', FirstFault ⟨true, entry⟩ stream j i' f' ∧ j ≤ k
      ∧ Program.generate ⟨true, entry⟩ stream = .error (f'.error j i'.opcode) := by
  have hfaulty : ¬ Faultless (.ofStream stream) true i := by
    rw [Faultless, fault_strict h.fault]
    simp
  rcases Program.generate_cases ⟨true, entry⟩ stream with ⟨hall, -⟩ | ⟨j, i', f', hfirst, he⟩
  · exact absurd (hall i (List.mem_of_getElem? h.getElem?)) hfaulty
  · exact ⟨j, i', f', hfirst, hfirst.le_of_faulty h.getElem? hfaulty, he⟩

end FirstFault

namespace Program

open Lowering

variable {entry : String} {stream : List Instruction} {p : Program} {e : CompileError}

theorem generate_lenient (h : generate ⟨true, entry⟩ stream = .ok p) :
    generate ⟨false, entry⟩ stream = .ok p := by
  obtain ⟨hall, rfl⟩ := generate_eq_ok_iff.1 h
  refine generate_eq_ok_iff.2 ⟨fun i hi => (hall i hi).lenient, ?_⟩
  have htouches : ∀ i ∈ stream, touches (.ofStream stream) false i
      = touches (.ofStream stream) true i := fun i hi => touches_of_faultless (hall i hi)
  have hbindings : bindingsOf (.ofStream stream) false stream
      = bindingsOf (.ofStream stream) true stream := by
    rw [bindingsOf, bindingsOf, List.flatMap_congr fun i hi => by rw [htouches i hi]]
  simp only [layout, blocksOf, hbindings]

theorem generate_error_lenient (h : generate ⟨true, entry⟩ stream = .error e)
    (he : ∀ index target, e ≠ .unresolvedTarget index target) :
    generate ⟨false, entry⟩ stream = .error e := by
  obtain ⟨k, i, f, hfirst, rfl⟩ := generate_eq_error_iff.1 h
  refine generate_eq_error_iff.2 ⟨k, i, f, hfirst.lenient fun target hf => he k target ?_, rfl⟩
  rw [hf]
  rfl

/-- What strict mode accepts has the same program in lenient mode. Any other error than a branch
without a declared target is reported by both, and strict mode fails no later than lenient mode. Up
to a branch that only strict mode refuses, generators of both modes hold the same, and have given
each instruction its lines. -/
theorem modes_agree (entry : String) (stream : List Instruction) :
    (∀ p, generate ⟨true, entry⟩ stream = .ok p → generate ⟨false, entry⟩ stream = .ok p)
    ∧ (∀ e, generate ⟨true, entry⟩ stream = .error e →
      (∀ index target, e ≠ .unresolvedTarget index target) →
        generate ⟨false, entry⟩ stream = .error e)
    ∧ (∀ e, generate ⟨false, entry⟩ stream = .error e → ∃ k e' j, e.index? = some k
      ∧ generate ⟨true, entry⟩ stream = .error e' ∧ e'.index? = some j ∧ j ≤ k)
    ∧ ∀ k target, generate ⟨true, entry⟩ stream = .error (.unresolvedTarget k target) →
      (Generator.before ⟨true, entry⟩ stream k).spans.length = k
      ∧ Generator.before ⟨false, entry⟩ stream k
        = { Generator.before ⟨true, entry⟩ stream k with options := ⟨false, entry⟩ } := by
  refine ⟨fun p => generate_lenient, fun e => generate_error_lenient, fun e h => ?_,
    fun k target h => ?_⟩
  · obtain ⟨k, i, f, hfirst, rfl⟩ := generate_eq_error_iff.1 h
    obtain ⟨j, i', f', -, hle, he⟩ := hfirst.exists_strict
    exact ⟨k, _, j, Fault.index?_error k i.opcode f, he, Fault.index?_error j i'.opcode f', hle⟩
  · obtain ⟨k', i, f, hfirst, he⟩ := generate_eq_error_iff.1 h
    have hindex := congrArg CompileError.index? he
    rw [Fault.index?_error] at hindex
    obtain rfl : k = k' := Option.some.inj hindex
    have hk : k ≤ stream.length := Nat.le_of_lt (List.getElem?_eq_some_iff.1 hfirst.getElem?).1
    refine ⟨?_, Generator.before_lenient hk hfirst.before⟩
    rw [(Generator.tried_before ⟨true, entry⟩ hk).spans_eq, spansOf_eq_consecutive hfirst.before,
      Span.length_consecutive, length_blocksOf, List.length_take, Nat.min_eq_left hk]

/-- Lenient mode drops the jump and then fails at the print. -/
def leaveThenPrint : List Instruction :=
  [.ofTokens "ASSIGN" "#1" "a" "", .ofTokens "JP" "away" "" "", .ofTokens "PRINT" "" "" ""]

theorem modes_agree_leaveThenPrint :
    (∃ p, generate ⟨true, "_start"⟩ Generator.assignTwice = .ok p
      ∧ generate ⟨false, "_start"⟩ Generator.assignTwice = .ok p)
    ∧ generate ⟨false, "_start"⟩ (leaveThenPrint.drop 2) = .error (.missingOperand 0 .print 1)
    ∧ (∃ e' j, generate ⟨true, "_start"⟩ leaveThenPrint = .error e' ∧ e'.index? = some j ∧ j ≤ 2)
    ∧ (Generator.before ⟨false, "_start"⟩ leaveThenPrint 1).spans
      = (Generator.before ⟨true, "_start"⟩ leaveThenPrint 1).spans := by
  have hok : generate ⟨true, "_start"⟩ Generator.assignTwice = .ok (layout .default _) :=
    generate_of_faultless (by decide)
  refine ⟨⟨_, hok, (modes_agree "_start" Generator.assignTwice).1 _ hok⟩, ?_, ?_, ?_⟩
  · exact (modes_agree "_start" (leaveThenPrint.drop 2)).2.1 _ rfl fun _ _ h => nomatch h
  · obtain ⟨k, e', j, hk, he, hj, hle⟩ := (modes_agree "_start" leaveThenPrint).2.2.1
      (.missingOperand 2 .print 1) rfl
    cases hk
    exact ⟨e', j, he, hj, hle⟩
  · obtain ⟨-, hsame⟩ := (modes_agree "_start" leaveThenPrint).2.2.2 1 (.symbol "away") rfl
    rw [hsame]

end Program

end ThreeAddress
