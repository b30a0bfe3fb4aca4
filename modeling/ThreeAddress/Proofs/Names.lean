import Mathlib.Data.List.Induction
import Mathlib.Data.List.Nodup
import ThreeAddress.Proofs.Loading

/-!
# The names of a program

A program declares its entry, the targets that lie in its stream and the three names of the print
routine, in this order (`declared_layout`). Where it branches to an instruction it names the target
that the jump itself spells (`insts_shape`), whether that is declared or not. So unless the entry
takes one of the other names, each name is declared once, and a branch that leads nowhere is one to
a target past the end of the stream (`names_resolve`).
-/

namespace ThreeAddress

open Assembly (Register Inst Line)
open Assembly.PrintInt (entryLabel loopLabel buffer)

namespace Assembly

/-- The name that the line gives to its place. -/
def Line.declares? : Line → Option String
  | .label name => some name
  | .skip name _ => some name
  | _ => none

/-- The label that the instruction may pass control to. -/
def Inst.destination? : Inst → Option String
  | .b label | .bcond _ label | .bl label | .cbnz _ label => some label
  | _ => none

/-- The names that lines declare, in order. -/
def declared (lines : List Line) : List String :=
  lines.filterMap Line.declares?

/-- The labels that lines branch to, in order. -/
def destinations (lines : List Line) : List String :=
  lines.filterMap fun l => l.inst?.bind Inst.destination?

theorem destination?_of_straight {j : Inst} (h : j.isStraight = true) : j.destination? = none := by
  cases j <;> first | rfl | cases h

/-- Where names are declared once, no two lines declare the same. -/
theorem eq_of_declares {lines : List Line} (h : (declared lines).Nodup) {j k : Nat} {l l' : Line}
    {name : String} (hj : lines[j]? = some l) (hk : lines[k]? = some l')
    (hl : l.declares? = some name) (hl' : l'.declares? = some name) : j = k := by
  have hpair := List.pairwise_iff_getElem.1 (List.pairwise_filterMap.1 h)
  obtain ⟨hj', rfl⟩ := List.getElem?_eq_some_iff.1 hj
  obtain ⟨hk', rfl⟩ := List.getElem?_eq_some_iff.1 hk
  rcases Nat.lt_trichotomy j k with hlt | heq | hlt
  · exact absurd rfl (hpair j k hj' hk' hlt name hl name hl')
  · exact heq
  · exact absurd rfl (hpair k j hk' hj' hlt name hl' name hl)

end Assembly

open Assembly (declared destinations destination?_of_straight)

theorem Labels.name_notMem_routineNames {t : Nat} : name t ∉ [entryLabel, loopLabel, buffer] := by
  have hhead : ∀ label ∈ [entryLabel, loopLabel, buffer], label.toList.head? ≠ some 'L' := by
    decide
  exact fun h => name_ne_of_head (hhead _ h) rfl

namespace Lowering

variable {register : Key → Register} {labels : Labels} {i : Instruction} {j : Inst}

theorem Target.label?_find {target : Operand} {label : String}
    (h : (Target.find labels target).label? = some label) :
    ∃ t, target.address? = some t ∧ label = Labels.name t := by
  rcases ht : target.address? with _ | t
  · simp [Target.find, ht, Target.label?] at h
  refine ⟨t, rfl, ?_⟩
  rcases hd : labels.declared? t with _ | declared
  · simp only [Target.find, ht, hd, Target.label?, Labels.registered?,
      Option.ite_none_right_eq_some, Option.some.injEq] at h
    exact h.2.symm
  · simp only [Target.find, ht, hd, Target.label?, Option.some.injEq] at h
    exact h ▸ (Labels.declared?_eq_some.1 hd).2.2

/-- A registered target has its label, declared or not. -/
theorem Target.label?_find_of_mem {target : Operand} {t : Nat} (ht : target.address? = some t)
    (hl : t ∈ labels.targets) : (Target.find labels target).label? = some (Labels.name t) := by
  rcases hd : labels.declared? t with _ | declared
  · simp [Target.find, ht, hd, Target.label?, Labels.registered?, hl]
  · simp [Target.find, ht, hd, Target.label?, (Labels.declared?_eq_some.1 hd).2.2]

/-- The instructions of a body go on to the next line, branch to the label of the target that the
jump spells, branch to a computed address, or call the print routine. -/
theorem insts_shape (h : j ∈ insts register labels i) :
    j.isStraight = true
      ∨ (∃ t, i.jumpAddress? = some t ∧ (j = .b (Labels.name t) ∨ j = .bcond .eq (Labels.name t)))
      ∨ (∃ r, j = .br r) ∨ (j = .bl entryLabel ∧ i.opcode = .print) := by
  by_cases hi : i.opcode.assigns = true
  · exact .inl (insts_straight register hi j h)
  obtain ⟨op, a1, a2, a3, place⟩ := i
  cases op with
  | assign | add | sub | mult | lessThan => exact absurd rfl hi
  | jumpIfFalse =>
    rcases List.mem_append.1 h with h | h
    · exact .inl (test_straight register (i := ⟨.jumpIfFalse, a1, a2, a3, place⟩) j h)
    · obtain ⟨label, hl, rfl⟩ := List.mem_map.1 h
      obtain ⟨t, ht, rfl⟩ := Target.label?_find (Option.mem_toList.1 hl)
      exact .inr (.inl ⟨t, ht, .inr rfl⟩)
  | jump =>
    cases a1 with
    | memory v =>
      simp only [insts, List.mem_cons, List.not_mem_nil, or_false] at h
      rcases h with rfl | rfl
      · exact .inl rfl
      · exact .inr (.inr (.inl ⟨_, rfl⟩))
    | empty | immediate l | symbol v =>
      obtain ⟨label, hl, rfl⟩ := List.mem_map.1 h
      obtain ⟨t, ht, rfl⟩ := Target.label?_find (Option.mem_toList.1 hl)
      exact .inr (.inl ⟨t, ht, .inl rfl⟩)
  | print =>
    rcases List.mem_append.1 h with h | h
    · exact .inl (load_straight register h)
    · simp only [Assembly.PrintInt.call, List.mem_cons, List.not_mem_nil, or_false] at h
      rcases h with rfl | rfl | rfl
      · exact .inl rfl
      · exact .inl rfl
      · exact .inr (.inr (.inr ⟨rfl, rfl⟩))
  | unknown tag => cases h

/-- A branch to a label of the body names the target that its jump spells. -/
theorem target_of_branch {label : String} (hj : j ∈ insts register labels i)
    (h : j = .b label ∨ ∃ c, j = .bcond c label) :
    ∃ t, i.jumpAddress? = some t ∧ label = Labels.name t := by
  rcases insts_shape hj with hs | ⟨t, ht, rfl | rfl⟩ | ⟨r, rfl⟩ | ⟨rfl, -⟩
  · rcases h with rfl | ⟨c, rfl⟩ <;> cases hs
  · rcases h with h | ⟨c, h⟩ <;> cases h
    exact ⟨t, ht, rfl⟩
  · rcases h with h | ⟨c, h⟩ <;> cases h
    exact ⟨t, ht, rfl⟩
  · rcases h with h | ⟨c, h⟩ <;> cases h
  · rcases h with h | ⟨c, h⟩ <;> cases h

/-- Every registered target that a jump spells is branched to. -/
theorem exists_branch {t : Nat} (hi : i.jumpAddress? = some t) (hl : t ∈ labels.targets) :
    ∃ j ∈ insts register labels i, j.destination? = some (Labels.name t) := by
  obtain ⟨op, a1, a2, a3, place⟩ := i
  cases op with
  | jump =>
    have hlabel := Target.label?_find_of_mem hi hl
    cases a1 with
    | symbol v => exact ⟨.b (Labels.name t), by simp [insts, hlabel], rfl⟩
    | empty | immediate l | memory v => cases hi
  | jumpIfFalse =>
    have hlabel := Target.label?_find_of_mem hi hl
    exact ⟨.bcond .eq (Labels.name t), by simp [insts, hlabel], rfl⟩
  | assign | add | sub | mult | lessThan | print | unknown tag => cases hi

/-- In strict mode a jump that spells a target has a declared one. -/
theorem declared?_of_faultless (hf : Faultless labels true i) {t : Nat}
    (hi : i.jumpAddress? = some t) : labels.declared? t = some (Labels.name t) := by
  have hbranches (target : Operand) (ht : target.address? = some t)
      (h : fault? (branches labels true target) = none) :
      labels.declared? t = some (Labels.name t) := by
    rcases hd : labels.declared? t with _ | label
    · simp [branches, Target.find, ht, hd, fault?] at h
    · rw [(Labels.declared?_eq_some.1 hd).2.2]
  obtain ⟨op, a1, a2, a3, place⟩ := i
  cases op with
  | jump =>
    cases a1 with
    | symbol v => exact hbranches (.symbol v) hi hf
    | empty | immediate l | memory v => cases hi
  | jumpIfFalse =>
    simp only [Faultless, touches, List.cons_append, fault?, fault?_append,
      Option.or_eq_none_iff] at hf
    exact hbranches a2 hi hf.2
  | assign | add | sub | mult | lessThan | print | unknown tag => cases hi

theorem declared_block (index : Nat) :
    declared (block register labels index i) = (labels.declared? index).toList := by
  have hlines : declared (lines register labels i) = [] := by
    refine List.filterMap_eq_nil_iff.2 fun l hl => ?_
    rcases lines_shape hl with ⟨inst, rfl, -⟩ | ⟨text, rfl⟩ <;> rfl
  rw [block, declared, List.filterMap_append, ← declared, ← declared, hlines, List.append_nil,
    Generator.labelLines]
  cases labels.declared? index <;> rfl

theorem declared_blocks (labels : Labels) (is : List Instruction) :
    declared (is.mapIdx (block register labels)).flatten
      = (List.range is.length).filterMap labels.declared? := by
  induction is using List.reverseRecOn with
  | nil => rfl
  | append_singleton is i ih =>
    rw [List.mapIdx_concat, List.flatten_append, List.flatten_singleton, declared,
      List.filterMap_append, ← declared, ← declared, ih, declared_block, List.length_append,
      List.length_singleton, List.range_succ, List.filterMap_append]
    rcases hd : labels.declared? is.length with _ | label <;> simp [hd]

theorem mem_destinations_block {label : String} {index : Nat} :
    label ∈ destinations (block register labels index i)
      ↔ ∃ j ∈ insts register labels i, j.destination? = some label := by
  refine List.mem_filterMap.trans ⟨fun ⟨l, hl, h⟩ => ?_, fun ⟨j, hj, h⟩ => ?_⟩
  · obtain ⟨j, hinst, h⟩ := Option.bind_eq_some_iff.1 h
    exact ⟨j, (inst_mem_block hl hinst).2, h⟩
  · have hlines : lines register labels i = (insts register labels i).map .inst := by
      unfold lines
      split
      · next hop => simp [insts, hop] at hj
      · rfl
    refine ⟨.inst j, List.mem_append_right _ ?_, h⟩
    rw [hlines]
    exact List.mem_map_of_mem hj

theorem mem_destinations_blocks {label : String} (is : List Instruction) :
    label ∈ destinations (is.mapIdx (block register labels)).flatten
      ↔ ∃ i ∈ is, ∃ j ∈ insts register labels i, j.destination? = some label := by
  induction is using List.reverseRecOn with
  | nil => simp [destinations]
  | append_singleton is i ih =>
    rw [List.mapIdx_concat, List.flatten_append, List.flatten_singleton, destinations,
      List.filterMap_append, List.mem_append, ← destinations, ← destinations, ih,
      mem_destinations_block]
    simp only [List.mem_append, List.mem_singleton, or_and_right, exists_or, exists_eq_left]

end Lowering

namespace Program

open Lowering

variable (options : Options) (stream : List Instruction) {label : String}

/-- The entry, the targets in the stream, the print routine. -/
theorem declared_layout : declared (layout options stream).lines = options.entry
    :: ((List.range stream.length).filterMap (Labels.ofStream stream).declared?
      ++ [entryLabel, loopLabel, buffer]) := by
  rw [lines_layout, body_layout, declared, List.filterMap_append, List.filterMap_append,
    ← declared, ← declared, ← declared, blocksOf, declared_blocks]
  rfl

variable {options stream}

theorem mem_declared_layout : label ∈ declared (layout options stream).lines
    ↔ label = options.entry ∨ (∃ t ∈ (Labels.ofStream stream).targets, t < stream.length
        ∧ label = Labels.name t) ∨ label ∈ [entryLabel, loopLabel, buffer] := by
  rw [declared_layout, List.mem_cons, List.mem_append, List.mem_filterMap]
  simp only [List.mem_range, Labels.declared?_eq_some, Labels.streamLength_ofStream]
  refine or_congr_right (or_congr_left ⟨fun ⟨t, _, htn, htl, h⟩ => ⟨t, htl, htn, h⟩,
    fun ⟨t, htl, htn, h⟩ => ⟨t, htn, htn, htl, h⟩⟩)

theorem nodup_declared_layout (hentry : options.entry ∉ [entryLabel, loopLabel, buffer])
    (hname : ∀ t, options.entry ≠ Labels.name t) :
    (declared (layout options stream).lines).Nodup := by
  rw [declared_layout, List.nodup_cons, List.nodup_append']
  refine ⟨fun h => ?_, ?_, by decide, fun label h h' => ?_⟩
  · rcases List.mem_append.1 h with h | h
    · obtain ⟨t, -, ht⟩ := List.mem_filterMap.1 h
      exact hname t (Labels.declared?_eq_some.1 ht).2.2
    · exact hentry h
  · refine List.nodup_range.filterMap fun t u label ht hu => ?_
    have ht := (Labels.declared?_eq_some.1 ht).2.2
    have hu := (Labels.declared?_eq_some.1 hu).2.2
    exact Labels.name_inj.1 (ht.symm.trans hu)
  · obtain ⟨t, -, ht⟩ := List.mem_filterMap.1 h
    rw [(Labels.declared?_eq_some.1 ht).2.2] at h'
    exact Labels.name_notMem_routineNames h'

/-- The label of the routine, if anything is printed, and those of all targets. -/
theorem mem_destinations_body : label ∈ destinations (layout options stream).body
    ↔ (label = entryLabel ∧ ∃ i ∈ stream, i.opcode = .print)
      ∨ ∃ t ∈ (Labels.ofStream stream).targets, label = Labels.name t := by
  have hheader : destinations (Assembly.header options.entry) = [] := rfl
  rw [body_layout, destinations, List.filterMap_append, ← destinations, ← destinations, hheader,
    List.nil_append, blocksOf, mem_destinations_blocks]
  refine ⟨?_, ?_⟩
  · rintro ⟨i, hi, j, hj, h⟩
    rcases insts_shape hj with hs | ⟨t, ht, rfl | rfl⟩ | ⟨r, rfl⟩ | ⟨rfl, hop⟩
    · rw [destination?_of_straight hs] at h
      cases h
    · cases h
      exact .inr ⟨t, Labels.mem_targets_ofStream.2 ⟨i, hi, ht⟩, rfl⟩
    · cases h
      exact .inr ⟨t, Labels.mem_targets_ofStream.2 ⟨i, hi, ht⟩, rfl⟩
    · cases h
    · cases h
      exact .inl ⟨rfl, i, hi, hop⟩
  · rintro (⟨rfl, i, hi, hop⟩ | ⟨t, ht, rfl⟩)
    · exact ⟨i, hi, .bl entryLabel, by simp [insts, hop, Assembly.PrintInt.call], rfl⟩
    · obtain ⟨i, hi, hjump⟩ := Labels.mem_targets_ofStream.1 ht
      exact ⟨i, hi, exists_branch hjump ht⟩

/-- A label of an instruction stands at the beginning of its block and nowhere else. -/
theorem getElem?_lines_eq_name (hentry : options.entry ∉ [entryLabel, loopLabel, buffer])
    (hname : ∀ t, options.entry ≠ Labels.name t) {index : Nat} (hindex : index < stream.length)
    (k : Nat) : (layout options stream).lines[k]? = some (.label (Labels.name index))
      ↔ index ∈ (Labels.ofStream stream).targets ∧ (layout options stream).lineFor index = k := by
  have hline (h : index ∈ (Labels.ofStream stream).targets) :
      (layout options stream).lines[(layout options stream).lineFor index]?
        = some (.label (Labels.name index)) :=
    Assembly.Machine.lineOf?_eq_some (lineOf?_name options hindex h)
  refine ⟨fun h => ?_, fun ⟨h, hk⟩ => hk ▸ hline h⟩
  have hdeclared : Labels.name index ∈ declared (layout options stream).lines :=
    List.mem_filterMap.2 ⟨_, List.mem_of_getElem? h, rfl⟩
  have htarget : index ∈ (Labels.ofStream stream).targets := by
    rcases mem_declared_layout.1 hdeclared with heq | ⟨t, ht, -, heq⟩ | hroutine
    · exact absurd heq.symm (hname index)
    · exact Labels.name_inj.1 heq ▸ ht
    · exact absurd hroutine Labels.name_notMem_routineNames
  exact ⟨htarget, Assembly.eq_of_declares (nodup_declared_layout hentry hname) (hline htarget) h
    rfl rfl⟩

/-- Names and branches of a program fit together. A branch of an instruction names the target that
its jump spells. An instruction's label is declared if some jump spells its index, and then once,
where its span begins. Strict programs declare every label that the body branches to; what others
do not declare are the labels of the dangling targets. No name is declared twice. -/
theorem names_resolve {p : Program} (hp : generate options stream = .ok p)
    (hentry : options.entry ∉ [entryLabel, loopLabel, buffer])
    (hname : ∀ t, options.entry ≠ Labels.name t) :
    (∀ (index : Nat) (i : Instruction), stream[index]? = some i → ∃ ls,
      p.linesFor? index = some ls ∧ ∀ l ∈ ls, ∀ label,
        (l.inst? = some (.b label) ∨ ∃ c, l.inst? = some (.bcond c label))
          → ∃ t, i.jumpAddress? = some t ∧ label = Labels.name t)
    ∧ (∀ index < stream.length, ∀ k, p.lines[k]? = some (.label (Labels.name index))
      ↔ (∃ i ∈ stream, i.jumpAddress? = some index) ∧ p.spans[index]?.map Span.start = some k)
    ∧ (options.strict = true → ∀ label ∈ destinations p.body, label ∈ declared p.lines)
    ∧ (∀ label, label ∈ destinations p.body ∧ label ∉ declared p.lines
      ↔ ∃ t ∈ p.labels.dangling, label = Labels.name t)
    ∧ (declared p.lines).Nodup := by
  obtain ⟨hf, rfl⟩ := generate_eq_ok_iff.1 hp
  have hdangling (t : Nat) : t ∈ (layout options stream).labels.dangling
      ↔ t ∈ (Labels.ofStream stream).targets ∧ stream.length ≤ t := by
    simp [Labels.dangling, layout, Labels.streamLength_ofStream]
  refine ⟨fun index i hi => ⟨_, linesFor?_layout options hi, fun l hl label h => ?_⟩,
    fun index hindex k => ?_, fun hstrict label h => ?_, fun label => ⟨?_, ?_⟩,
    nodup_declared_layout hentry hname⟩
  · rcases h with h | ⟨c, h⟩
    · exact target_of_branch (inst_mem_block hl h).2 (.inl rfl)
    · exact target_of_branch (inst_mem_block hl h).2 (.inr ⟨c, rfl⟩)
  · rw [getElem?_lines_eq_name hentry hname hindex, ← Labels.mem_targets_ofStream,
      span_start_layout options hindex, Option.some.injEq]
  · rcases mem_destinations_body.1 h with ⟨rfl, -⟩ | ⟨t, ht, rfl⟩
    · exact mem_declared_layout.2 (.inr (.inr (by simp)))
    · obtain ⟨i, hi, hjump⟩ := Labels.mem_targets_ofStream.1 ht
      have hlt := (Labels.declared?_eq_some.1 (declared?_of_faultless (hstrict ▸ hf i hi) hjump)).1
      rw [Labels.streamLength_ofStream] at hlt
      exact mem_declared_layout.2 (.inr (.inl ⟨t, ht, hlt, rfl⟩))
  · rintro ⟨h, hno⟩
    rcases mem_destinations_body.1 h with ⟨rfl, -⟩ | ⟨t, ht, rfl⟩
    · exact absurd (mem_declared_layout.2 (.inr (.inr (by simp)))) hno
    · refine ⟨t, (hdangling t).2 ⟨ht, Nat.le_of_not_lt fun hlt => hno ?_⟩, rfl⟩
      exact mem_declared_layout.2 (.inr (.inl ⟨t, ht, hlt, rfl⟩))
  · rintro ⟨t, ht, rfl⟩
    obtain ⟨htarget, hle⟩ := (hdangling t).1 ht
    refine ⟨mem_destinations_body.2 (.inr ⟨t, htarget, rfl⟩), fun h => ?_⟩
    rcases mem_declared_layout.1 h with heq | ⟨u, -, hu, heq⟩ | hroutine
    · exact hname t heq.symm
    · rw [Labels.name_inj.1 heq] at hle
      omega
    · exact Labels.name_notMem_routineNames hroutine

/-- A target with a leading zero, one that two jumps share and one past the end. -/
def jumps : List Instruction :=
  [.ofTokens "JPF" "c" "02" "", .ofTokens "JP" "9" "" "", .ofTokens "JP" "2" "" ""]

theorem names_resolve_lenient : ∃ p, generate ⟨false, "_start"⟩ jumps = .ok p
    ∧ declared p.lines = ["_start", "LABEL_2", entryLabel, loopLabel, buffer]
    ∧ p.lines[7]? = some (.label "LABEL_2") ∧ p.spans[2]?.map Span.start = some 7
    ∧ (∀ label, label ∈ destinations p.body ∧ label ∉ declared p.lines
      ↔ ∃ t ∈ p.labels.dangling, label = Labels.name t) := by
  have hp : generate ⟨false, "_start"⟩ jumps = .ok (layout ⟨false, "_start"⟩ jumps) :=
    generate_of_faultless (by decide)
  obtain ⟨-, hlabel, -, hdangling, -⟩ := names_resolve hp (by decide)
    fun t h => Labels.name_ne_of_head (by decide) h.symm
  have hline : (layout ⟨false, "_start"⟩ jumps).lines[7]? = some (.label (Labels.name 2)) :=
    (hlabel 2 (by decide) 7).2 ⟨⟨_, List.mem_cons_self, rfl⟩, by decide⟩
  exact ⟨_, hp, by decide, hline, ((hlabel 2 (by decide) 7).1 hline).2, hdangling⟩

end Program

end ThreeAddress
