import ThreeAddress.Proofs.Calls
import ThreeAddress.Proofs.Placement

/-!
# The blocks of a program

A program is its header, the blocks of its instructions in their order and the print routine, with
nothing in between (`blocks_laid_out`). A block is what lowering gave at the moment at which the
generator came to the instruction, behind the instruction's label if it is the target of a jump.

The table of registers was still growing at that moment. Since a key never changes its register, an
instruction that is lowered once more with the finished table gives the same lines and binds
nothing (`lower_again`): every register in its block is the one that the finished table has for a
name or a scratch role of the instruction.
-/

namespace ThreeAddress

open Assembly (Register Inst Line Argument)

namespace Assembly

def Argument.registers : Argument → List Register
  | .register r => [r]
  | .literal _ => []
  | .cell base => [base]

/-- The registers that the text of an instruction shows, in order. -/
def Inst.registers : Inst → List Register
  | .mov rd a | .ldr rd a | .str rd a | .strb rd a | .cmp rd a => rd :: a.registers
  | .adr rd _ | .cset rd _ | .br rd | .cbnz rd _ => [rd]
  | .add rd rn a | .sub rd rn a => rd :: rn :: a.registers
  | .mul rd rn rm | .udiv rd rn rm => [rd, rn, rm]
  | .b _ | .bcond _ _ | .bl _ | .ret | .svc _ => []

end Assembly

theorem Bindings.insertAll_eq_self {b : Bindings} {ks : List Key} (h : ∀ k ∈ ks, k ∈ b.keys) :
    b.insertAll ks = b := by
  induction ks with
  | nil => rfl
  | cons k ks ih =>
    have hk : b.insert k = b := dif_pos (h k List.mem_cons_self)
    rw [insertAll, List.foldl_cons, hk]
    exact ih fun j hj => h j (List.mem_cons_of_mem k hj)

namespace Span

variable {start : Nat} {bs : List (List Line)} {s t : Span}

theorem stop_eq_start {k : Nat} (hs : (consecutive start bs)[k]? = some s)
    (ht : (consecutive start bs)[k + 1]? = some t) : s.stop = t.start := by
  rw [getElem?_consecutive] at hs ht
  obtain ⟨b, hb, rfl⟩ := Option.map_eq_some_iff.1 hs
  obtain ⟨c, -, rfl⟩ := Option.map_eq_some_iff.1 ht
  simp [List.take_add_one, hb, Nat.add_assoc]

theorem bounds_of_mem (h : s ∈ consecutive start bs) :
    s.start ≤ s.stop ∧ s.stop ≤ start + bs.flatten.length := by
  induction bs generalizing start with
  | nil => cases h
  | cons b bs ih =>
    rw [List.flatten_cons, List.length_append]
    rcases List.mem_cons.1 h with rfl | h
    · exact ⟨Nat.le_add_right _ _, by simp only; omega⟩
    · obtain ⟨hle, hstop⟩ := ih h
      exact ⟨hle, by omega⟩

/-- The last span ends where the blocks end. -/
theorem getLast?_consecutive (start : Nat) (bs : List (List Line)) :
    ((consecutive start bs).getLast?.map stop).getD start = start + bs.flatten.length := by
  induction bs generalizing start with
  | nil => rfl
  | cons b bs ih =>
    have h := ih (start + b.length)
    rw [consecutive, List.getLast?_cons, List.flatten_cons, List.length_append, ← Nat.add_assoc,
      ← h]
    cases (consecutive (start + b.length) bs).getLast? <;> rfl

end Span

namespace Lowering

variable {register : Key → Register} {labels : Labels} {options : Options} {strict : Bool}
  {is : List Instruction} {i : Instruction} {ts : List Touch} {slot : Nat} {a : Operand}

section Shown

/-- The register belongs to a key that is touched. -/
def Touched (register : Key → Register) (ts : List Touch) (r : Register) : Prop :=
  ∃ k, .key k ∈ ts ∧ register k = r

/-- Instructions that show registers of touched keys only. -/
def Shows (register : Key → Register) (ts : List Touch) (js : List Inst) : Prop :=
  ∀ j ∈ js, ∀ r ∈ j.registers, Touched register ts r

theorem Shows.append {js js' : List Inst} (h : Shows register ts js)
    (h' : Shows register ts js') : Shows register ts (js ++ js') :=
  fun j hj => (List.mem_append.1 hj).elim (h j) (h' j)

theorem load_shows (slot : Nat) {rd : Register} (hrd : Touched register ts rd)
    (h : reads slot a ⊆ ts) : Shows register ts (load register rd a) := by
  intro j hj r hr
  cases a with
  | empty => cases hj
  | immediate l =>
    rw [List.mem_singleton.1 hj] at hr
    rw [List.mem_singleton.1 hr]
    exact hrd
  | memory v | symbol v =>
    rw [List.mem_singleton.1 hj] at hr
    rcases List.mem_cons.1 hr with rfl | hr
    · exact hrd
    · rw [List.mem_singleton.1 hr]
      exact ⟨.value v, h List.mem_cons_self, rfl⟩

theorem result_touched (hf : fault? (writes slot a) = none) (h : writes slot a ⊆ ts) :
    Touched register ts (result register a) := by
  rcases fault?_writes.1 hf with ⟨v, rfl⟩ | ⟨v, rfl⟩
  · exact ⟨.scratch .store, h List.mem_cons_self, rfl⟩
  · exact ⟨.value v, h List.mem_cons_self, rfl⟩

theorem writeBack_shows (slot : Nat) (h : writes slot a ⊆ ts) :
    Shows register ts (writeBack register a) := by
  intro j hj r hr
  cases a with
  | memory v =>
    rw [List.mem_singleton.1 hj] at hr
    rcases List.mem_cons.1 hr with rfl | hr
    · exact ⟨.scratch .store, h List.mem_cons_self, rfl⟩
    · rw [List.mem_singleton.1 hr]
      exact ⟨.value v, h (by simp [writes]), rfl⟩
  | empty | immediate l | symbol v => cases hj

theorem computes_shows (hf : fault? (computes i) = none) {js : List Inst}
    (h : ∀ j ∈ js, ∀ r ∈ j.registers, r = result register i.a3 ∨ r = register (.scratch .lhs)
      ∨ r = register (.scratch .rhs)) :
    Shows register (computes i) (loadBoth register i ++ js ++ writeBack register i.a3) := by
  have hlhs : Touched register (computes i) (register (.scratch .lhs)) :=
    ⟨_, by simp [computes], rfl⟩
  have hrhs : Touched register (computes i) (register (.scratch .rhs)) :=
    ⟨_, by simp [computes], rfl⟩
  have hdest : writes 3 i.a3 ⊆ computes i := fun t ht => by simp [computes, ht]
  refine (((load_shows 1 hlhs ?_).append (load_shows 2 hrhs ?_)).append
    fun j hj r hr => ?_).append (writeBack_shows 3 hdest)
  · exact fun t ht => by simp [computes, ht]
  · exact fun t ht => by simp [computes, ht]
  · rcases h j hj r hr with rfl | rfl | rfl
    · exact result_touched (faults_computes.1 hf).1 hdest
    · exact hlhs
    · exact hrhs

/-- Besides the registers of what it touches, an instruction shows only the two that a print call
sets. -/
theorem registers_insts (hf : Faultless labels strict i) {j : Inst}
    (hj : j ∈ insts register labels i) {r : Register} (hr : r ∈ j.registers) :
    Touched register (touches labels strict i) r
      ∨ i.opcode = .print ∧ (r = .x 0 ∨ r = .x 1) := by
  obtain ⟨op, a1, a2, a3, place⟩ := i
  cases op with
  | assign =>
    have hshows : Shows register (touches labels strict ⟨.assign, a1, a2, a3, place⟩)
        (load register (result register a2) a1 ++ writeBack register a2) := by
      cases a2 with
      | memory v =>
        refine (load_shows 1 ⟨.scratch .store, by simp [touches], rfl⟩ ?_).append ?_
        · exact fun t ht => by simp [touches, ht]
        · exact writeBack_shows 2 fun t ht => by
            rcases List.mem_cons.1 ht with rfl | ht <;> simp_all [touches]
      | empty | immediate l | symbol v =>
        simp only [Faultless, touches, fault?_append, Option.or_eq_none_iff] at hf
        refine (load_shows 1 ?_ ?_).append (writeBack_shows 2 ?_)
        · exact result_touched hf.1 (List.subset_append_left _ _)
        · exact List.subset_append_right _ _
        · exact List.subset_append_left _ _
    exact .inl (hshows j hj r hr)
  | add | sub | mult =>
    refine .inl (computes_shows hf (fun j hj r hr => ?_) j hj r hr)
    rw [List.mem_singleton.1 hj] at hr
    simpa [Inst.registers, Argument.registers] using hr
  | lessThan =>
    refine .inl (computes_shows hf (fun j hj r hr => ?_) j hj r hr)
    rcases List.mem_cons.1 hj with rfl | hj
    · exact .inr (by simpa [Inst.registers, Argument.registers] using hr)
    · rw [List.mem_singleton.1 hj] at hr
      exact .inl (List.mem_singleton.1 hr)
  | jumpIfFalse =>
    have hcond : Touched register (touches labels strict ⟨.jumpIfFalse, a1, a2, a3, place⟩)
        (register (.scratch .cond)) := ⟨_, by simp [touches], rfl⟩
    refine .inl (((load_shows 1 hcond ?_).append fun j hj r hr => ?_).append
      (fun j hj r hr => ?_) j hj r hr)
    · exact fun t ht => by simp [touches, ht]
    · rw [List.mem_singleton.1 hj] at hr
      rw [List.mem_singleton.1 hr]
      exact hcond
    · obtain ⟨label, -, rfl⟩ := List.mem_map.1 hj
      cases hr
  | jump =>
    cases a1 with
    | memory v =>
      have hpointer : Touched register (touches labels strict ⟨.jump, .memory v, a2, a3, place⟩)
          (register (.scratch .jumpPtr)) := ⟨_, by simp [touches], rfl⟩
      have hname : Touched register (touches labels strict ⟨.jump, .memory v, a2, a3, place⟩)
          (register (.value v)) := ⟨_, by simp [touches], rfl⟩
      simp only [insts, List.mem_cons, List.not_mem_nil, or_false] at hj
      rcases hj with rfl | rfl
      · rcases List.mem_cons.1 hr with rfl | hr
        · exact .inl hpointer
        · exact .inl (List.mem_singleton.1 hr ▸ hname)
      · exact .inl (List.mem_singleton.1 hr ▸ hpointer)
    | empty | immediate l | symbol v =>
      obtain ⟨label, -, rfl⟩ := List.mem_map.1 hj
      cases hr
  | print =>
    have hvalue : Touched register (touches labels strict ⟨.print, a1, a2, a3, place⟩)
        (register (.scratch .print)) := ⟨_, by simp [touches], rfl⟩
    rcases List.mem_append.1 hj with hj | hj
    · exact .inl (load_shows 1 hvalue (fun t ht => by simp [touches, ht]) j hj r hr)
    · simp only [Assembly.PrintInt.call, List.mem_cons, List.not_mem_nil, or_false] at hj
      rcases hj with rfl | rfl | rfl
      · rcases List.mem_cons.1 hr with rfl | hr
        · exact .inr ⟨rfl, .inr rfl⟩
        · exact .inl (List.mem_singleton.1 hr ▸ hvalue)
      · exact .inr ⟨rfl, .inl (List.mem_singleton.1 hr)⟩
      · cases hr
  | unknown tag => cases hj

end Shown

section Lower

variable {b : Bindings}

theorem bindings_lower (labels : Labels) (options : Options) (b : Bindings) (index : Nat)
    (i : Instruction) : (i.lower labels options b index).bindings
      = b.insertAll (keysBeforeFault (touches labels options.strict i)) := by
  simp only [Instruction.lower]
  split <;> rfl

theorem result_lower (hf : Faultless labels options.strict i) (b : Bindings) (index : Nat) :
    (i.lower labels options b index).result = .ok (lines
      (b.insertAll (keysBeforeFault (touches labels options.strict i))).register labels i) := by
  simp only [Instruction.lower, show fault? (touches labels options.strict i) = none from hf]

theorem bindingsOf_append (labels : Labels) (strict : Bool) (is js : List Instruction) :
    bindingsOf labels strict (is ++ js) = (bindingsOf labels strict is).insertAll
      (js.flatMap fun i => keysBeforeFault (touches labels strict i)) := by
  rw [bindingsOf, List.flatMap_append, Bindings.insertAll_append, ← bindingsOf]

/-- The table that an instruction was lowered with gives the lines of the finished table. -/
theorem lines_when_lowered {k : Nat} (hi : is[k]? = some i) (hf : Faultless labels strict i) :
    lines ((bindingsOf labels strict (is.take k)).insertAll
        (keysBeforeFault (touches labels strict i))).register labels i
      = lines (bindingsOf labels strict is).register labels i := by
  have hsplit : is.take k ++ [i] ++ is.drop (k + 1) = is := by
    obtain ⟨hk, rfl⟩ := List.getElem?_eq_some_iff.1 hi
    rw [List.take_append_getElem hk, List.take_append_drop]
  have htable := bindingsOf_append labels strict (is.take k ++ [i]) (is.drop (k + 1))
  rw [hsplit, bindingsOf_concat] at htable
  rw [htable]
  exact (lines_insertAll hf (fun j hj => Bindings.mem_insertAll.2 (.inr hj)) _).symm

end Lower

end Lowering

namespace Generator

open Lowering

/-- The generator when it has come to the instruction with this index. -/
def before (options : Options) (stream : List Instruction) (index : Nat) : Generator :=
  (start options stream).afterAll (.discoverLabels :: List.replicate index .emitNext)

theorem tried_before (options : Options) {stream : List Instruction} {index : Nat}
    (h : index ≤ stream.length) : Tried options stream index (before options stream index) := by
  obtain ⟨g, hg, htried⟩ := discoverLabels_start options stream
  have hemits := (htried.emits index (by omega)).1
  rw [Nat.zero_add, ← (answer_of_ok (c := .discoverLabels) hg).2] at hemits
  exact hemits

end Generator

namespace Program

open Lowering

variable {options : Options} {stream : List Instruction} {p : Program} {index : Nat}
  {i : Instruction}

theorem linesFor?_eq (options : Options) (hi : stream[index]? = some i) :
    (layout options stream).linesFor? index
      = some ((if index ∈ (Labels.ofStream stream).targets
          then [.label (Labels.name index)] else [])
        ++ Lowering.lines (layout options stream).bindings.register (.ofStream stream) i) := by
  rw [linesFor?_layout options hi, block, labelLines_eq (List.getElem?_eq_some_iff.1 hi).1]

/-- What the generator got when it lowered the instruction. -/
theorem result_before (hf : ∀ i ∈ stream, Faultless (.ofStream stream) options.strict i)
    (hi : stream[index]? = some i) :
    (i.lower (Generator.before options stream index).labels options
        (Generator.before options stream index).bindings index).result
      = .ok (Lowering.lines (layout options stream).bindings.register (.ofStream stream) i) := by
  have hfault := hf i (List.mem_of_getElem? hi)
  have hbefore := Generator.tried_before options
    (Nat.le_of_lt (List.getElem?_eq_some_iff.1 hi).1)
  rw [hbefore.labels_eq, hbefore.bindings_eq, result_lower hfault, lines_when_lowered hi hfault]
  rfl

/-- The finished table has all that the instruction asks for. -/
theorem lower_again (hf : ∀ i ∈ stream, Faultless (.ofStream stream) options.strict i)
    (hi : stream[index]? = some i) :
    (i.lower (layout options stream).labels options (layout options stream).bindings index).result
        = .ok (Lowering.lines (layout options stream).bindings.register (.ofStream stream) i)
      ∧ (i.lower (layout options stream).labels options
          (layout options stream).bindings index).bindings = (layout options stream).bindings := by
  have hmem := List.mem_of_getElem? hi
  have hsame : (layout options stream).bindings.insertAll
      (keysBeforeFault (touches (.ofStream stream) options.strict i))
        = (layout options stream).bindings :=
    Bindings.insertAll_eq_self fun k hk =>
      mem_bindings_layout hmem (hf i hmem) ((mem_keysBeforeFault (hf i hmem)).1 hk)
  exact ⟨(result_lower (hf i hmem) _ index).trans (by rw [hsame]),
    (bindings_lower _ _ _ index i).trans hsame⟩

/-- An instruction line of the body belongs to an instruction of the stream. -/
theorem exists_of_mem_body {l : Assembly.Line} {inst : Inst}
    (hl : l ∈ (layout options stream).body) (hinst : l.inst? = some inst) :
    ∃ index i, stream[index]? = some i
      ∧ l ∈ block (layout options stream).bindings.register (.ofStream stream) index i := by
  rw [body_layout] at hl
  rcases List.mem_append.1 hl with hl | hl
  · simp only [Assembly.header, List.mem_cons, List.not_mem_nil, or_false] at hl
    rcases hl with rfl | rfl | rfl <;> cases hinst
  · obtain ⟨b, hb, hl⟩ := List.mem_flatten.1 hl
    obtain ⟨index, hindex, rfl⟩ := List.mem_mapIdx.1 hb
    exact ⟨index, _, List.getElem?_eq_getElem hindex, hl⟩

/-- A program is its header, its blocks and the print routine. The spans follow each other from the
fourth line to the routine. Each block has the label of its instruction in front if that is a
target, and then the lines that the generator got when it lowered the instruction, all of them
instructions or comments. -/
theorem blocks_laid_out (hp : generate options stream = .ok p) :
    p.lines = Assembly.header options.entry ++ p.blocks.flatten ++ Assembly.PrintInt.routine
    ∧ p.spans.length = stream.length
    ∧ (∀ s, p.spans[0]? = some s → s.start = 3)
    ∧ (∀ (k : Nat) (s t : Span), p.spans[k]? = some s → p.spans[k + 1]? = some t →
      s.stop = t.start)
    ∧ (∀ s ∈ p.spans, s.start ≤ s.stop ∧ s.stop ≤ p.lines.length)
    ∧ p.lines.drop ((p.spans.getLast?.map Span.stop).getD 3) = Assembly.PrintInt.routine
    ∧ ∀ (index : Nat) (i : Instruction), stream[index]? = some i → ∃ ls,
      (i.lower (Generator.before options stream index).labels options
        (Generator.before options stream index).bindings index).result = .ok ls
      ∧ p.linesFor? index = some
        ((if index ∈ p.labels.targets then [.label (Labels.name index)] else []) ++ ls)
      ∧ ∀ l ∈ ls, (∃ inst, l = .inst inst) ∨ ∃ text, l = .comment text := by
  obtain ⟨hf, rfl⟩ := generate_eq_ok_iff.1 hp
  have hlines : (layout options stream).lines = Assembly.header options.entry
      ++ (layout options stream).blocks.flatten ++ Assembly.PrintInt.routine := by
    rw [blocks_layout]
    rfl
  refine ⟨hlines, ?_, fun s hs => ?_, fun k s t => Span.stop_eq_start, fun s hs => ?_, ?_,
    fun index i hi => ?_⟩
  · exact length_spans_layout options stream
  · rw [layout, Span.getElem?_consecutive] at hs
    obtain ⟨b, -, rfl⟩ := Option.map_eq_some_iff.1 hs
    rfl
  · obtain ⟨hle, hstop⟩ := Span.bounds_of_mem hs
    rw [hlines, blocks_layout, List.length_append, List.length_append]
    refine ⟨hle, Nat.le_trans hstop ?_⟩
    simp [Assembly.header]
  · rw [layout, Span.getLast?_consecutive, List.drop_left']
    exact List.length_append
  · refine ⟨_, result_before hf hi, linesFor?_eq options hi, fun l hl => ?_⟩
    rcases lines_shape hl with ⟨inst, hl, -⟩ | ⟨text, hl⟩
    · exact .inl ⟨inst, hl⟩
    · exact .inr ⟨text, hl⟩

/-- The second jump is dropped, so its block is a label and nothing else. -/
def jumpToDropped : List Instruction :=
  [.ofTokens "JP" "1" "" "", .ofTokens "JP" "away" "" "", .ofTokens "HALT" "a" "" ""]

theorem blocks_laid_out_dropped : ∃ p, generate ⟨false, "_start"⟩ jumpToDropped = .ok p
    ∧ p.spans = [⟨3, 4⟩, ⟨4, 5⟩, ⟨5, 6⟩] ∧ p.lines.drop 6 = Assembly.PrintInt.routine
    ∧ p.linesFor? 1 = some [.label "LABEL_1"]
    ∧ p.linesFor? 2 = some [.comment "Unsupported: HALT a  "] := by
  have hp : generate ⟨false, "_start"⟩ jumpToDropped
      = .ok (layout ⟨false, "_start"⟩ jumpToDropped) :=
    generate_of_faultless (by decide)
  obtain ⟨-, -, -, -, -, hdrop, hblock⟩ := blocks_laid_out hp
  obtain ⟨ls, hresult, hlines, -⟩ := hblock 1 _ rfl
  obtain ⟨ls', hresult', hlines', -⟩ := hblock 2 _ rfl
  cases hresult
  cases hresult'
  exact ⟨_, hp, by decide, hdrop, hlines, hlines'⟩

/-- With the tables of the finished program every instruction is lowered to the lines of its block
again and binds nothing. So the registers in the body are those that the finished table has for the
names and scratch roles of the instruction that the line belongs to, and the two that a print call
sets. -/
theorem registers_settled (hp : generate options stream = .ok p) :
    (∀ (index : Nat) (i : Instruction), stream[index]? = some i → ∃ ls,
      (i.lower p.labels options p.bindings index).result = .ok ls
      ∧ (i.lower p.labels options p.bindings index).bindings = p.bindings
      ∧ p.linesFor? index = some
        ((if index ∈ p.labels.targets then [.label (Labels.name index)] else []) ++ ls)
      ∧ ls = Lowering.lines p.bindings.register p.labels i)
    ∧ ∀ l ∈ p.body, ∀ inst, l.inst? = some inst → ∃ (index : Nat) (i : Instruction),
      stream[index]? = some i ∧ (∃ ls, p.linesFor? index = some ls ∧ l ∈ ls)
      ∧ ∀ r ∈ inst.registers,
        (∃ k, .key k ∈ touches p.labels options.strict i ∧ p.bindings.get? k = some r)
          ∨ i.opcode = .print ∧ (r = .x 0 ∨ r = .x 1) := by
  obtain ⟨hf, rfl⟩ := generate_eq_ok_iff.1 hp
  refine ⟨fun index i hi => ?_, fun l hl inst hinst => ?_⟩
  · obtain ⟨hresult, hbindings⟩ := lower_again hf hi
    exact ⟨_, hresult, hbindings, linesFor?_eq options hi, rfl⟩
  · obtain ⟨index, i, hi, hblock⟩ := exists_of_mem_body hl hinst
    have hmem := List.mem_of_getElem? hi
    refine ⟨index, i, hi, ⟨_, linesFor?_layout options hi, hblock⟩, fun r hr => ?_⟩
    rcases registers_insts (hf i hmem) (inst_mem_block hblock hinst).2 hr with
      ⟨k, hk, hkr⟩ | hprint
    · have hbound := mem_bindings_layout hmem (hf i hmem) hk
      exact .inl ⟨k, hk, Bindings.get?_eq_some.2 ⟨hbound, hkr⟩⟩
    · exact .inr hprint

/-- Three keys are bound after the first instruction was lowered. -/
theorem registers_settled_assignTwice :
    ∃ p, generate .default Generator.assignTwice = .ok p ∧ p.bindings.size = 3
      ∧ ((Instruction.ofTokens "ASSIGN" "#1" "a" "").lower p.labels .default p.bindings 0).bindings
        = p.bindings
      ∧ p.linesFor? 0 = some [.inst (.mov (.x 0) (.literal "1"))] := by
  have hp : generate .default Generator.assignTwice = .ok (layout .default Generator.assignTwice) :=
    generate_of_faultless (by decide)
  obtain ⟨hagain, -⟩ := registers_settled hp
  obtain ⟨ls, -, hbindings, hlines, rfl⟩ := hagain 0 _ rfl
  exact ⟨_, hp, by decide, hbindings, hlines⟩

end Program

end ThreeAddress
