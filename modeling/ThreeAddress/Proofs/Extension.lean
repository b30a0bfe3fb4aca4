import ThreeAddress.Proofs.NumericTargets
import ThreeAddress.Proofs.References

/-!
# Programs of longer streams

What comes behind a stream can add targets that lie in it, and can bring a target that was past its
end into the stream. Neither shows in the code of an instruction: an instruction without a fault
binds the keys of its references whatever the labels (`keysBeforeFault_eq`), and a direct jump
branches to the label of the number that it spells, declared or not (`lines_ofStream_append`). So
the table of the longer stream begins with that of the shorter one, and the blocks that both
programs have differ at most by a label in front (`Program.generate_append`).
-/

namespace ThreeAddress

open Assembly (Register Line)

namespace Bindings

theorem toList_insertAll_prefix (b : Bindings) (ks : List Key) :
    b.toList <+: (b.insertAll ks).toList := by
  rw [toList_eq_of_keys (keys_insertAll b ks)]
  exact List.prefix_append _ _

end Bindings

namespace Labels

variable {stream rest : List Instruction} {index : Nat}

theorem targets_ofStream_append (stream rest : List Instruction) :
    (ofStream stream).targets ⊆ (ofStream (stream ++ rest)).targets := by
  intro t ht
  obtain ⟨i, hi, hjump⟩ := mem_targets_ofStream.1 ht
  exact mem_targets_ofStream.2 ⟨i, List.mem_append_left rest hi, hjump⟩

/-- A label that is declared stays declared. -/
theorem declared?_ofStream_append {label : String}
    (h : (ofStream stream).declared? index = some label) :
    (ofStream (stream ++ rest)).declared? index = some label := by
  obtain ⟨hindex, htarget, hname⟩ := declared?_eq_some.1 h
  rw [streamLength_ofStream] at hindex
  refine declared?_eq_some.2 ⟨?_, targets_ofStream_append stream rest htarget, hname⟩
  rw [streamLength_ofStream, List.length_append]
  omega

end Labels

namespace Lowering

variable {register : Key → Register} {labels labels' : Labels} {strict : Bool}
  {stream rest : List Instruction} {i : Instruction}

/-- The keys of an instruction without a fault do not depend on the labels. -/
theorem keysBeforeFault_eq (h : Faultless labels strict i) :
    keysBeforeFault (touches labels strict i) = i.references.flatMap i.keysOf :=
  (follows_touches labels strict i).free h

theorem bindingsOf_eq (h : ∀ i ∈ stream, Faultless labels strict i) :
    bindingsOf labels strict stream
      = Bindings.empty.insertAll (stream.flatMap fun i => i.references.flatMap i.keysOf) := by
  rw [bindingsOf, List.flatMap_congr fun i hi => keysBeforeFault_eq (h i hi)]

theorem bindingsOf_ofStream_append
    (h : ∀ i ∈ stream, Faultless (.ofStream stream) strict i)
    (h' : ∀ i ∈ stream ++ rest, Faultless (.ofStream (stream ++ rest)) strict i) :
    bindingsOf (.ofStream (stream ++ rest)) strict (stream ++ rest)
      = (bindingsOf (.ofStream stream) strict stream).insertAll
        (rest.flatMap fun i => i.references.flatMap i.keysOf) := by
  rw [bindingsOf_eq h, bindingsOf_eq h', List.flatMap_append, Bindings.insertAll_append]

/-- Only a direct jump asks the labels for its lines. -/
theorem lines_congr_labels (h : ∀ target, i.directTarget? = some target →
      (Target.find labels target).label? = (Target.find labels' target).label?) :
    lines register labels i = lines register labels' i := by
  rcases hd : i.directTarget? with _ | target
  · obtain ⟨op, a1, a2, a3, place⟩ := i
    cases op with
    | jumpIfFalse => cases hd
    | jump =>
      cases a1 with
      | memory v => rfl
      | empty | immediate l | symbol v => cases hd
    | assign | add | sub | mult | lessThan | print | unknown tag => rfl
  · rw [lines_direct hd, lines_direct hd, h target hd]

theorem lines_ofStream_append (register : Key → Register) (rest : List Instruction)
    (hi : i ∈ stream) :
    lines register (.ofStream (stream ++ rest)) i = lines register (.ofStream stream) i := by
  refine lines_congr_labels fun target htarget => ?_
  rw [Target.label?_find_ofStream hi htarget,
    Target.label?_find_ofStream (List.mem_append_left rest hi) htarget]

end Lowering

namespace Program

open Lowering
open Generator (labelLines)

variable {options : Options} {stream rest : List Instruction} {p q : Program}

/-- A stream that goes on behind an instruction leaves the instruction's code and all registers as
they are. It can only put a label in front that was not there. -/
theorem generate_append (hp : generate options stream = .ok p)
    (hq : generate options (stream ++ rest) = .ok q) :
    p.bindings.toList <+: q.bindings.toList
    ∧ p.labels.targets ⊆ q.labels.targets
    ∧ ∀ index, index < stream.length → ∃ code,
      (∀ label, .label label ∉ code)
      ∧ p.linesFor? index = some (labelLines p.labels index ++ code)
      ∧ q.linesFor? index = some (labelLines q.labels index ++ code)
      ∧ ∀ label, .label label ∈ labelLines p.labels index →
        .label label ∈ labelLines q.labels index := by
  obtain ⟨hall, rfl⟩ := generate_eq_ok_iff.1 hp
  obtain ⟨hall', rfl⟩ := generate_eq_ok_iff.1 hq
  have hbindings := bindingsOf_ofStream_append hall hall'
  refine ⟨?_, Labels.targets_ofStream_append stream rest, fun index hindex => ?_⟩
  · simp only [layout, hbindings]
    exact Bindings.toList_insertAll_prefix _ _
  have hi : stream[index]? = some stream[index] := List.getElem?_eq_getElem hindex
  have hi' : (stream ++ rest)[index]? = some stream[index] := by
    rw [List.getElem?_append_left hindex, hi]
  have hmem : stream[index] ∈ stream := List.getElem_mem hindex
  have hlines : Lowering.lines (layout options (stream ++ rest)).bindings.register
      (.ofStream (stream ++ rest)) stream[index]
        = Lowering.lines (layout options stream).bindings.register (.ofStream stream)
          stream[index] := by
    simp only [layout, hbindings]
    rw [lines_ofStream_append _ rest hmem, lines_insertAll (hall _ hmem) fun k hk => ?_]
    exact mem_bindingsOf.2 ⟨_, hmem, hk⟩
  refine ⟨Lowering.lines (layout options stream).bindings.register (.ofStream stream)
    stream[index], fun label => label_notMem_lines, ?_, ?_, fun label hlabel => ?_⟩
  · exact linesFor?_layout options hi
  · rw [linesFor?_layout options hi', block, hlines]
    rfl
  · obtain ⟨name, hname, hl⟩ := List.mem_map.1 hlabel
    rw [← hl]
    refine List.mem_map_of_mem (Option.mem_toList.2 ?_)
    exact Labels.declared?_ofStream_append (Option.mem_toList.1 hname)

/-- The jump leads past the end until the print comes behind it, and back to itself after that. -/
def jumpAhead : List Instruction := [.ofTokens "JP" "01" "" ""]

def printThenBack : List Instruction :=
  [.ofTokens "PRINT" "a" "" "", .ofTokens "JPF" "a" "0" ""]

theorem generate_append_printThenBack :
    ∃ p q, generate ⟨false, "_start"⟩ jumpAhead = .ok p
      ∧ generate ⟨false, "_start"⟩ (jumpAhead ++ printThenBack) = .ok q
      ∧ p.bindings.toList <+: q.bindings.toList
      ∧ p.linesFor? 0 = some [.inst (.b "LABEL_1")]
      ∧ q.linesFor? 0 = some [.label "LABEL_0", .inst (.b "LABEL_1")] := by
  have hp : generate ⟨false, "_start"⟩ jumpAhead = .ok (layout ⟨false, "_start"⟩ jumpAhead) :=
    generate_of_faultless (by decide)
  have hq : generate ⟨false, "_start"⟩ (jumpAhead ++ printThenBack)
      = .ok (layout ⟨false, "_start"⟩ (jumpAhead ++ printThenBack)) :=
    generate_of_faultless (by decide)
  obtain ⟨hkept, -, hcode⟩ := generate_append hp hq
  obtain ⟨code, -, hfirst, hsecond, -⟩ := hcode 0 (by decide)
  have hbefore : labelLines (.ofStream jumpAhead) 0 = [] := by decide
  have hafter : labelLines (.ofStream (jumpAhead ++ printThenBack)) 0 = [.label "LABEL_0"] := by
    decide
  have hjump : (layout ⟨false, "_start"⟩ jumpAhead).linesFor? 0
      = some [.inst (.b "LABEL_1")] := by
    decide
  change _ = some (labelLines (.ofStream jumpAhead) 0 ++ code) at hfirst
  change _ = some (labelLines (.ofStream (jumpAhead ++ printThenBack)) 0 ++ code) at hsecond
  rw [hjump, hbefore] at hfirst
  obtain rfl : code = [.inst (.b "LABEL_1")] := (Option.some.inj hfirst).symm
  rw [hafter] at hsecond
  exact ⟨_, _, hp, hq, hkept, hjump, hsecond⟩

end Program

end ThreeAddress
