import ThreeAddress.Assembly.Machine
import ThreeAddress.Proofs.Layout

/-!
# Where the lines of a program stand

Each instruction's block stands at the line its span begins with (`placed_block`), the print
routine directly after the last one (`placed_routine`). The branch labels of the instructions and
the two labels of the routine are the last of their names, so they lead to their blocks and into
the routine whatever the entry is called (`lineOf?_name`, `lineOf?_entryLabel`).
-/

namespace ThreeAddress

namespace Assembly

/-- The lines `seg` stand in the program from line `k` on. -/
def Placed (lines : List Line) (k : Nat) (seg : List Line) : Prop :=
  ∃ before after, lines = before ++ seg ++ after ∧ before.length = k

namespace Placed

variable {lines seg rest : List Line} {k j : Nat} {l : Line}

theorem append_left (h : Placed lines k (seg ++ rest)) : Placed lines k seg := by
  obtain ⟨before, after, rfl, rfl⟩ := h
  exact ⟨before, rest ++ after, by simp, rfl⟩

theorem append_right (h : Placed lines k (seg ++ rest)) : Placed lines (k + seg.length) rest := by
  obtain ⟨before, after, rfl, rfl⟩ := h
  exact ⟨before ++ seg, after, by simp, by simp⟩

theorem head (h : Placed lines k (l :: rest)) : lines[k]? = some l := by
  obtain ⟨before, after, rfl, rfl⟩ := h
  simp

theorem tail (h : Placed lines k (l :: rest)) : Placed lines (k + 1) rest :=
  @append_right lines [l] rest k h

theorem slice (h : Placed lines k seg) (j count : Nat) (hj : j ≤ seg.length) :
    Placed lines (k + j) ((seg.drop j).take count) := by
  rw [← List.take_append_drop j seg] at h
  have := h.append_right
  rw [List.length_take_of_le hj, ← List.take_append_drop count (seg.drop j)] at this
  exact this.append_left

theorem get (h : Placed lines k seg) (hj : j < seg.length) : lines[k + j]? = seg[j]? := by
  obtain ⟨before, after, rfl, rfl⟩ := h
  rw [List.append_assoc, List.getElem?_append_right (by omega), Nat.add_sub_cancel_left,
    List.getElem?_append_left hj]

end Placed

namespace Machine

variable {lines : List Line} {label : String}

theorem lineOf?_eq_some {k : Nat} (h : lineOf? lines label = some k) :
    lines[k]? = some (.label label) := by
  induction lines generalizing k with
  | nil => simp [lineOf?] at h
  | cons l ls ih =>
    simp only [lineOf?] at h
    rcases hr : lineOf? ls label with _ | j
    · rw [hr] at h
      simp only [Option.map_none, Option.none_or] at h
      split at h
      · cases h
        subst_vars
        rfl
      · cases h
    · rw [hr] at h
      cases h
      exact ih hr

theorem lineOf?_eq_none (h : .label label ∉ lines) : lineOf? lines label = none := by
  rcases hr : lineOf? lines label with _ | k
  · rfl
  · exact absurd (List.mem_of_getElem? (lineOf?_eq_some hr)) h

/-- The last declaration of a label is the one that counts. -/
theorem lineOf?_of_last (before : List Line) {after : List Line} (h : .label label ∉ after) :
    lineOf? (before ++ .label label :: after) label = some before.length := by
  induction before with
  | nil => simp [lineOf?, lineOf?_eq_none h]
  | cons l ls ih => simp [lineOf?, ih]

end Machine

end Assembly

namespace Labels

theorem declared?_eq_some {l : Labels} {k : Nat} {label : String} : l.declared? k = some label
    ↔ k < l.streamLength ∧ k ∈ l.targets ∧ label = name k := by
  simp [declared?, registered?, eq_comm]

theorem name_inj {t u : Nat} : name t = name u ↔ t = u := by
  rw [name, name, String.append_right_inj, Text.toString_inj]

theorem name_ne_of_head {t : Nat} {label : String} (h : label.toList.head? ≠ some 'L') :
    name t ≠ label := by
  rintro rfl
  simp [name] at h

/-- The print routine declares no label of an instruction. -/
theorem name_notMem_routine {t : Nat} : .label (name t) ∉ Assembly.PrintInt.routine := by
  have hentry : name t ≠ Assembly.PrintInt.entryLabel := name_ne_of_head (by decide)
  have hloop : name t ≠ Assembly.PrintInt.loopLabel := name_ne_of_head (by decide)
  simp [Assembly.PrintInt.routine, Assembly.PrintInt.start, Assembly.PrintInt.round,
    Assembly.PrintInt.write, hentry, hloop]

end Labels

namespace Lowering

open Assembly (Line Placed)

variable {register : Key → Assembly.Register} {labels : Labels} {i : Instruction} {l : Line}

/-- What an instruction is lowered to are instructions and comments. -/
theorem lines_shape (h : l ∈ lines register labels i) :
    (∃ inst, l = .inst inst ∧ inst ∈ insts register labels i) ∨ ∃ text, l = .comment text := by
  unfold lines at h
  split at h
  · exact .inr ⟨_, List.mem_singleton.1 h⟩
  · obtain ⟨inst, hi, rfl⟩ := List.mem_map.1 h
    exact .inl ⟨inst, rfl, hi⟩

theorem label_notMem_lines {label : String} : .label label ∉ lines register labels i := by
  intro h
  rcases lines_shape h with ⟨inst, h, -⟩ | ⟨text, h⟩ <;> cases h

theorem label_mem_block {label : String} {k : Nat} (h : .label label ∈ block register labels k i) :
    label = Labels.name k := by
  rcases List.mem_append.1 h with h | h
  · obtain ⟨name, hname, h⟩ := List.mem_map.1 h
    cases h
    exact (Labels.declared?_eq_some.1 (Option.mem_toList.1 hname)).2.2
  · exact absurd h label_notMem_lines

/-- The instructions of a block are those of its instruction. -/
theorem inst_mem_block {inst : Assembly.Inst} {k : Nat} (h : l ∈ block register labels k i)
    (hl : l.inst? = some inst) : l = .inst inst ∧ inst ∈ insts register labels i := by
  rcases List.mem_append.1 h with h | h
  · obtain ⟨name, -, rfl⟩ := List.mem_map.1 h
    cases hl
  · rcases lines_shape h with ⟨inst, rfl, hi⟩ | ⟨text, rfl⟩
    · cases hl
      exact ⟨rfl, hi⟩
    · cases hl

theorem indented_notMem_block {inst : Assembly.Inst} {k : Nat} :
    .indented inst ∉ block register labels k i := by
  intro h
  cases (inst_mem_block h rfl).1

end Lowering

/-- The line on which the block of an instruction begins; past the last instruction, the first line
after the blocks. -/
def Program.lineFor (p : Program) (index : Nat) : Nat :=
  (p.spans[index]?.map Span.start).getD p.body.length

namespace Program

open Assembly (Line Placed)
open Assembly.Machine (lineOf? lineOf?_of_last)
open Lowering

section Layout

variable (options : Options) (stream : List Instruction)

theorem body_layout : (layout options stream).body = Assembly.header options.entry
    ++ (blocksOf (.ofStream stream) options.strict stream).flatten := by
  simp only [body, layout]
  rw [List.length_append, Nat.add_sub_cancel, List.take_left']
  rfl

theorem lines_layout : (layout options stream).lines
    = (layout options stream).body ++ Assembly.PrintInt.routine := by
  rw [body_layout]
  rfl

theorem lineFor_layout (k : Nat) : (layout options stream).lineFor k
    = 3 + ((blocksOf (.ofStream stream) options.strict stream).take k).flatten.length := by
  rw [lineFor, body_layout]
  show (((Span.consecutive 3 _)[k]?).map Span.start).getD _ = _
  rw [Span.getElem?_consecutive]
  rcases hk : (blocksOf (.ofStream stream) options.strict stream)[k]? with _ | b
  · rw [List.take_of_length_le (List.getElem?_eq_none_iff.1 hk)]
    simp [Assembly.header]
    omega
  · rfl

theorem span_start_layout {stream : List Instruction} {k : Nat} (hk : k < stream.length) :
    (layout options stream).spans[k]?.map Span.start
      = some ((layout options stream).lineFor k) := by
  rw [lineFor, List.getElem?_eq_getElem (by rwa [length_spans_layout])]
  rfl

theorem lineFor_length : (layout options stream).lineFor stream.length
    = (layout options stream).body.length := by
  rw [lineFor_layout, body_layout, List.take_of_length_le (Nat.le_of_eq (length_blocksOf _ _ _)),
    List.length_append]
  rfl

variable {stream} {k : Nat} {i : Instruction}

theorem getElem?_blocksOf (hi : stream[k]? = some i) :
    (blocksOf (.ofStream stream) options.strict stream)[k]?
      = some (block (layout options stream).bindings.register (.ofStream stream) k i) := by
  simp [blocksOf, layout, hi]

theorem lineFor_succ (hi : stream[k]? = some i) :
    (layout options stream).lineFor (k + 1) = (layout options stream).lineFor k
      + (block (layout options stream).bindings.register (.ofStream stream) k i).length := by
  rw [lineFor_layout, lineFor_layout, List.take_add_one, getElem?_blocksOf options hi]
  simp only [Option.toList_some, List.flatten_append, List.flatten_singleton, List.length_append]
  omega

theorem linesFor?_layout (hi : stream[k]? = some i) : (layout options stream).linesFor? k
    = some (block (layout options stream).bindings.register (.ofStream stream) k i) := by
  rw [linesFor?, ← List.getElem?_map, ← getElem?_blocksOf options hi, ← blocks_layout]
  rfl

theorem labelLines_eq (hk : k < stream.length) :
    Generator.labelLines (.ofStream stream) k
      = if k ∈ (Labels.ofStream stream).targets then [.label (Labels.name k)] else [] := by
  rw [Generator.labelLines, Labels.declared?, Labels.streamLength_ofStream, if_pos hk,
    Labels.registered?]
  split <;> rfl

/-- The lines before a block, the block, the later blocks and the routine. -/
theorem lines_split (hi : stream[k]? = some i) :
    ∃ before after, before.length = (layout options stream).lineFor k
      ∧ (layout options stream).lines = before
        ++ block (layout options stream).bindings.register (.ofStream stream) k i
        ++ (after ++ Assembly.PrintInt.routine)
      ∧ ∀ label, .label label ∈ after → ∃ j, k < j ∧ label = Labels.name j := by
  obtain ⟨hk, hb⟩ := List.getElem?_eq_some_iff.1 (getElem?_blocksOf options hi)
  refine ⟨Assembly.header options.entry
      ++ ((blocksOf (.ofStream stream) options.strict stream).take k).flatten,
    ((blocksOf (.ofStream stream) options.strict stream).drop (k + 1)).flatten, ?_, ?_,
    fun label hl => ?_⟩
  · rw [lineFor_layout, List.length_append]
    rfl
  · have hsplit : (blocksOf (.ofStream stream) options.strict stream).flatten
        = ((blocksOf (.ofStream stream) options.strict stream).take k).flatten
          ++ (block (layout options stream).bindings.register (.ofStream stream) k i
            ++ ((blocksOf (.ofStream stream) options.strict stream).drop (k + 1)).flatten) := by
      rw [← hb, ← List.flatten_cons, ← List.drop_eq_getElem_cons hk, ← List.flatten_append,
        List.take_append_drop]
    rw [lines_layout, body_layout, hsplit]
    simp only [List.append_assoc]
  · obtain ⟨b, hb, hl⟩ := List.mem_flatten.1 hl
    obtain ⟨j, hj, rfl⟩ := List.mem_iff_getElem.1 hb
    rw [List.getElem_drop] at hl
    simp only [blocksOf, List.getElem_mapIdx] at hl
    exact ⟨k + 1 + j, by omega, label_mem_block hl⟩

theorem placed_block (hi : stream[k]? = some i) :
    Placed (layout options stream).lines ((layout options stream).lineFor k)
      (block (layout options stream).bindings.register (.ofStream stream) k i) := by
  obtain ⟨before, after, hlen, hlines, -⟩ := lines_split options hi
  exact ⟨before, _, hlines, hlen⟩

/-- A line within the bounds of a block is one of its lines. -/
theorem getElem?_of_block (hi : stream[k]? = some i) {j : Nat}
    (hj : (layout options stream).lineFor k ≤ j)
    (hj' : j < (layout options stream).lineFor (k + 1)) :
    ∃ l ∈ block (layout options stream).bindings.register (.ofStream stream) k i,
      (layout options stream).lines[j]? = some l := by
  rw [lineFor_succ options hi] at hj'
  obtain ⟨d, rfl⟩ := Nat.exists_eq_add_of_le hj
  have hd : d
      < (block (layout options stream).bindings.register (.ofStream stream) k i).length := by
    omega
  refine ⟨_, List.getElem_mem hd, ?_⟩
  rw [(placed_block options hi).get hd, List.getElem?_eq_getElem]

variable (stream)

theorem placed_routine : Placed (layout options stream).lines
    ((layout options stream).lineFor stream.length) Assembly.PrintInt.routine :=
  ⟨(layout options stream).body, [], by rw [lines_layout, List.append_nil],
    (lineFor_length options stream).symm⟩

/-- A branch to a declared target goes to the block of the instruction. -/
theorem lineOf?_name {stream : List Instruction} {k : Nat} (hk : k < stream.length)
    (hl : k ∈ (Labels.ofStream stream).targets) :
    lineOf? (layout options stream).lines (Labels.name k)
      = some ((layout options stream).lineFor k) := by
  obtain ⟨before, after, hlen, hlines, hafter⟩ :=
    lines_split options (List.getElem?_eq_getElem hk)
  rw [block, labelLines_eq hk, if_pos hl] at hlines
  rw [hlines, ← hlen]
  simp only [List.append_assoc, List.cons_append, List.nil_append]
  refine lineOf?_of_last before fun h => ?_
  rcases List.mem_append.1 h with h | h
  · exact label_notMem_lines h
  rcases List.mem_append.1 h with h | h
  · obtain ⟨j, hj, h⟩ := hafter _ h
    have := Labels.name_inj.1 h
    omega
  · exact Labels.name_notMem_routine h

/-- A strict branch has a target in the stream and goes to its block. -/
theorem lineOf?_target {stream : List Instruction} {target : Operand}
    (hf : fault? (branches (.ofStream stream) true target) = none) :
    ∃ t label, target.address? = some t ∧ t < stream.length
      ∧ (Target.find (.ofStream stream) target).label? = some label
      ∧ lineOf? (layout options stream).lines label = some ((layout options stream).lineFor t) := by
  rcases ht : target.address? with _ | t
  · simp [branches, Target.find, ht, fault?] at hf
  rcases hd : (Labels.ofStream stream).declared? t with _ | label
  · simp [branches, Target.find, ht, hd, fault?] at hf
  obtain ⟨htn, htl, rfl⟩ := Labels.declared?_eq_some.1 hd
  rw [Labels.streamLength_ofStream] at htn
  refine ⟨t, _, rfl, htn, ?_, lineOf?_name options htn htl⟩
  simp [Target.find, ht, hd, Target.label?]

theorem lineOf?_entryLabel : lineOf? (layout options stream).lines Assembly.PrintInt.entryLabel
    = some ((layout options stream).lineFor stream.length + 1) := by
  rw [lines_layout, lineFor_length]
  have hlast : .label Assembly.PrintInt.entryLabel ∉ Assembly.PrintInt.routine.drop 2 := by decide
  have h := lineOf?_of_last ((layout options stream).body ++ [.blank]) hlast
  simpa [Assembly.PrintInt.routine] using h

theorem lineOf?_loopLabel : lineOf? (layout options stream).lines Assembly.PrintInt.loopLabel
    = some ((layout options stream).lineFor stream.length + 6) := by
  rw [lines_layout, lineFor_length]
  have hlast : .label Assembly.PrintInt.loopLabel ∉ Assembly.PrintInt.routine.drop 7 := by decide
  have h := lineOf?_of_last ((layout options stream).body ++ Assembly.PrintInt.routine.take 6) hlast
  simpa [Assembly.PrintInt.routine, Assembly.PrintInt.start] using h

end Layout

end Program

end ThreeAddress
