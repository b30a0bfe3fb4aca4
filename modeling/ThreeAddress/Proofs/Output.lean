import ThreeAddress.Compilation
import ThreeAddress.Proofs.Names
import ThreeAddress.Proofs.Reading

/-!
# The lines of the output

A line of a program shows free text where it has a literal, a label or a comment. If no such text
contains the end of a line, or ends with a part of it, the line's own text does not either
(`oneLine_text`). The tokens of a loaded text are of that kind, and free text in the body is made of
them and of label names (`oneLine_block`), so the output of a compilation has exactly one line for
each line of the program, whatever the input says (`lines_of_compile`).
-/

namespace ThreeAddress

open Assembly (Register Inst Line Argument)
open Text (IsLine)

namespace Text

variable {l l' : List Char} {s t : String}

theorem isLine_of_forall (h : ∀ c ∈ l, c ≠ '\n' ∧ c ≠ '\r') : IsLine l :=
  ⟨fun hl => (h _ hl).1 rfl, fun hl => (h _ (List.mem_of_getLast? hl)).2 rfl⟩

theorem IsLine.append (h : IsLine l) (h' : IsLine l') : IsLine (l ++ l') := by
  refine ⟨fun hc => (List.mem_append.1 hc).elim h.1 h'.1, ?_⟩
  rw [List.getLast?_append]
  rcases hl : l'.getLast? with _ | c
  · exact h.2
  · exact fun hc => h'.2 (hl.trans hc)

def OneLine (s : String) : Prop := IsLine s.toList

instance (s : String) : Decidable (OneLine s) := inferInstanceAs (Decidable (IsLine _))

theorem OneLine.append (h : OneLine s) (h' : OneLine t) : OneLine (s ++ t) := by
  rw [OneLine, String.toList_append]
  exact IsLine.append h h'

theorem oneLine_toString (n : Nat) : OneLine (toString n) := by
  rw [OneLine, Nat.toString_eq_ofList_toDigits, String.toList_ofList]
  refine isLine_of_forall fun c hc => ?_
  have hdigit := isDigit_of_mem_toDigits hc
  exact ⟨fun h => absurd (h ▸ hdigit) (by decide), fun h => absurd (h ▸ hdigit) (by decide)⟩

end Text

open Text (OneLine oneLine_toString)

namespace Assembly

/-- The free texts that an argument shows. -/
def Argument.free : Argument → List String
  | .literal text => [text]
  | _ => []

/-- The free texts that an instruction shows. -/
def Inst.free : Inst → List String
  | .mov _ a | .ldr _ a | .str _ a | .strb _ a | .cmp _ a | .add _ _ a | .sub _ _ a => a.free
  | .adr _ text | .b text | .bcond _ text | .bl text | .cbnz _ text => [text]
  | .mul _ _ _ | .udiv _ _ _ | .cset _ _ | .br _ | .ret | .svc _ => []

/-- The free texts that a line shows. -/
def Line.free : Line → List String
  | .global text | .segment text | .skip text _ | .label text | .comment text => [text]
  | .inst i | .indented i => i.free
  | .blank => []

theorem Register.oneLine_text (r : Register) : OneLine r.text := by
  cases r <;> exact .append (by decide) (oneLine_toString _)

theorem Argument.oneLine_text {a : Argument} (h : ∀ s ∈ a.free, OneLine s) : OneLine a.text := by
  cases a with
  | register r => exact r.oneLine_text
  | literal text => exact .append (by decide) (h text List.mem_cons_self)
  | cell base => exact .append (.append (by decide) base.oneLine_text) (by decide)

theorem Inst.oneLine_text {i : Inst} (h : ∀ s ∈ i.free, OneLine s) : OneLine i.text := by
  have hcomma : OneLine ", " := by decide
  cases i with
  | mov rd a | ldr rd a | str rd a | strb rd a | cmp rd a =>
    exact .append (.append (.append (by decide) rd.oneLine_text) hcomma) (Argument.oneLine_text h)
  | add rd rn a | sub rd rn a =>
    exact .append (.append (.append (.append (.append (by decide) rd.oneLine_text) hcomma)
      rn.oneLine_text) hcomma) (Argument.oneLine_text h)
  | mul rd rn rm | udiv rd rn rm =>
    exact .append (.append (.append (.append (.append (by decide) rd.oneLine_text) hcomma)
      rn.oneLine_text) hcomma) rm.oneLine_text
  | adr rd text | cbnz rd text =>
    exact .append (.append (.append (by decide) rd.oneLine_text) hcomma) (h text List.mem_cons_self)
  | cset rd c =>
    exact .append (.append (.append (by decide) rd.oneLine_text) hcomma) (by cases c <;> decide)
  | b label | bl label => exact .append (by decide) (h label List.mem_cons_self)
  | bcond c label =>
    exact .append (.append (.append (by decide) (by cases c <;> decide)) (by decide))
      (h label List.mem_cons_self)
  | br rn => exact .append (by decide) rn.oneLine_text
  | ret => decide
  | svc number => exact .append (by decide) (oneLine_toString _)

theorem Line.oneLine_text {l : Line} (h : ∀ s ∈ l.free, OneLine s) : OneLine l.text := by
  cases l with
  | global text | segment text | comment text =>
    exact .append (by decide) (h text List.mem_cons_self)
  | skip name bytes =>
    exact .append (.append (h name List.mem_cons_self) (by decide)) (oneLine_toString _)
  | label name => exact .append (h name List.mem_cons_self) (by decide)
  | inst i => exact Inst.oneLine_text h
  | indented i => exact .append (by decide) (Inst.oneLine_text h)
  | blank => decide

/-- Lines whose texts are one line each are read back from the text that is emitted. -/
theorem lines_emit {ls : List Line} (h : ∀ l ∈ ls, OneLine l.text) :
    Text.lines (emit ls).toList = ls.map fun l => l.text.toList := by
  have hlines : ∀ l ∈ ls.map fun l => l.text.toList, IsLine l := fun l hl => by
    obtain ⟨line, hline, rfl⟩ := List.mem_map.1 hl
    exact h line hline
  rw [← Text.lines_flatMap hlines]
  simp [emit, String.toList_join, List.flatMap_map, String.toList_append]

end Assembly

theorem Labels.oneLine_name (t : Nat) : OneLine (name t) :=
  .append (by decide) (oneLine_toString t)

namespace Lowering

variable {register : Key → Register} {labels : Labels} {i : Instruction} {a : Operand}
  {js js' : List Inst}

/-- Instructions that show no free text that could end a line. -/
def Clean (js : List Inst) : Prop := ∀ j ∈ js, ∀ s ∈ j.free, OneLine s

theorem Clean.append (h : Clean js) (h' : Clean js') : Clean (js ++ js') :=
  fun j hj => (List.mem_append.1 hj).elim (h j) (h' j)

theorem clean_of_free_nil (h : ∀ j ∈ js, j.free = []) : Clean js := by
  intro j hj s hs
  rw [h j hj] at hs
  cases hs

theorem clean_load (rd : Register) (h : OneLine a.text) : Clean (load register rd a) := by
  cases a with
  | immediate literal =>
    intro j hj s hs
    rw [List.mem_singleton.1 hj] at hs
    rw [List.mem_singleton.1 hs]
    rw [OneLine, Operand.text, String.toList_append] at h
    exact Text.IsLine.tail h
  | empty | memory v | symbol v =>
    exact clean_of_free_nil (by simp [load, Inst.free, Argument.free])

theorem clean_writeBack : Clean (writeBack register a) :=
  clean_of_free_nil (by cases a <;> simp [writeBack, Inst.free, Argument.free])

theorem clean_loadBoth (h1 : OneLine i.a1.text) (h2 : OneLine i.a2.text) :
    Clean (loadBoth register i) :=
  (clean_load _ h1).append (clean_load _ h2)

theorem oneLine_label {target : Operand} {label : String}
    (h : label ∈ (Target.find labels target).label?.toList) : OneLine label := by
  obtain ⟨t, -, rfl⟩ := Target.label?_find (Option.mem_toList.1 h)
  exact Labels.oneLine_name t

/-- Literals of the instruction and labels are all the free text that lowering brings in. -/
theorem clean_insts (h : ∀ t ∈ i.texts, OneLine t) : Clean (insts register labels i) := by
  have h1 : OneLine i.a1.text := h _ (by simp [Instruction.texts])
  have h2 : OneLine i.a2.text := h _ (by simp [Instruction.texts])
  obtain ⟨op, a1, a2, a3, place⟩ := i
  cases op with
  | assign => exact (clean_load _ h1).append clean_writeBack
  | add | sub | mult | lessThan =>
    refine ((clean_loadBoth h1 h2).append (clean_of_free_nil ?_)).append clean_writeBack
    simp [Inst.free, Argument.free]
  | jumpIfFalse =>
    refine ((clean_load _ h1).append fun j hj s hs => ?_).append fun j hj s hs => ?_
    · rw [List.mem_singleton.1 hj] at hs
      rw [List.mem_singleton.1 hs]
      decide
    · obtain ⟨label, hlabel, rfl⟩ := List.mem_map.1 hj
      rw [List.mem_singleton.1 hs]
      exact oneLine_label hlabel
  | jump =>
    cases a1 with
    | memory v => exact clean_of_free_nil (by simp [insts, Inst.free, Argument.free])
    | empty | immediate l | symbol v =>
      intro j hj s hs
      obtain ⟨label, hlabel, rfl⟩ := List.mem_map.1 hj
      rw [List.mem_singleton.1 hs]
      exact oneLine_label hlabel
  | print =>
    refine (clean_load _ h1).append fun j hj s hs => ?_
    simp only [Assembly.PrintInt.call, List.mem_cons, List.not_mem_nil, or_false] at hj
    rcases hj with rfl | rfl | rfl
    · cases hs
    · rw [List.mem_singleton.1 hs]
      decide
    · rw [List.mem_singleton.1 hs]
      decide
  | unknown tag => exact clean_of_free_nil (by simp [insts])

theorem oneLine_unsupportedText (h : ∀ t ∈ i.texts, OneLine t) {tag : String}
    (htag : tag ∈ i.texts) : OneLine (unsupportedText tag i) := by
  have hspace : OneLine " " := by decide
  have hopening : OneLine "Unsupported: " := by decide
  have h1 : OneLine i.a1.text := h _ (by simp [Instruction.texts])
  have h2 : OneLine i.a2.text := h _ (by simp [Instruction.texts])
  have h3 : OneLine i.a3.text := h _ (by simp [Instruction.texts])
  exact .append (.append (.append (.append (.append (.append (.append hopening (h tag htag)) hspace)
    h1) hspace) h2) hspace) h3

theorem oneLine_block (h : ∀ t ∈ i.texts, OneLine t) {index : Nat} {l : Line}
    (hl : l ∈ block register labels index i) : OneLine l.text := by
  refine Line.oneLine_text fun s hs => ?_
  rcases List.mem_append.1 hl with hl | hl
  · obtain ⟨label, hlabel, rfl⟩ := List.mem_map.1 hl
    rw [List.mem_singleton.1 hs, (Labels.declared?_eq_some.1 (Option.mem_toList.1 hlabel)).2.2]
    exact Labels.oneLine_name index
  · unfold lines at hl
    split at hl
    · next tag hop =>
      rw [List.mem_singleton.1 hl] at hs
      rw [List.mem_singleton.1 hs]
      exact oneLine_unsupportedText h (by simp [Instruction.texts, hop, Opcode.tag])
    · obtain ⟨j, hj, rfl⟩ := List.mem_map.1 hl
      exact clean_insts h j hj s hs

end Lowering

namespace Compilation

variable {options : Options} {text output : String}

theorem oneLine_layout {stream : List Instruction}
    (hentry : '\n' ∉ options.entry.toList ∧ '\r' ∉ options.entry.toList)
    (h : ∀ i ∈ stream, ∀ t ∈ i.texts, OneLine t) {l : Line}
    (hl : l ∈ (Program.layout options stream).lines) : OneLine l.text := by
  have hname : OneLine options.entry := Text.isLine_of_forall fun c hc =>
    ⟨fun h => hentry.1 (h ▸ hc), fun h => hentry.2 (h ▸ hc)⟩
  have hroutine : ∀ l ∈ Assembly.PrintInt.routine, ∀ s ∈ l.free, OneLine s := by decide
  rw [Program.layout] at hl
  rcases List.mem_append.1 hl with hl | hl
  · rcases List.mem_append.1 hl with hl | hl
    · refine Line.oneLine_text fun s hs => ?_
      simp only [Assembly.header, List.mem_cons, List.not_mem_nil, or_false] at hl
      rcases hl with rfl | rfl | rfl <;> rw [List.mem_singleton.1 hs]
      · exact hname
      · decide
      · exact hname
    · obtain ⟨b, hb, hl⟩ := List.mem_flatten.1 hl
      obtain ⟨index, hindex, rfl⟩ := List.mem_mapIdx.1 hb
      exact Lowering.oneLine_block (h _ (List.getElem_mem hindex)) hl
  · exact Line.oneLine_text (hroutine l hl)

/-- What is compiled from a text has exactly one line for each line of the program, with the text
of that line, in the same order. -/
theorem lines_of_compile (hentry : '\n' ∉ options.entry.toList ∧ '\r' ∉ options.entry.toList)
    (h : compile options text = .ok output) :
    ∃ p, Program.generate options (Instruction.ofText text) = .ok p
      ∧ (Text.lines output.toList).map String.ofList = p.lines.map Line.text := by
  rcases hp : Program.generate options (Instruction.ofText text) with e | p
  · rw [compile, hp] at h
    cases h
  · rw [compile, hp] at h
    cases h
    refine ⟨p, rfl, ?_⟩
    obtain ⟨-, rfl⟩ := Program.generate_eq_ok_iff.1 hp
    have htexts : ∀ i ∈ Instruction.ofText text, ∀ t ∈ i.texts, OneLine t := fun i hi t ht =>
      ((Instruction.spelled_of_mem_ofText hi).tokens t ht).isLine
    rw [Program.text, Assembly.lines_emit fun l => oneLine_layout hentry htexts, List.map_map]
    exact List.map_congr_left fun l _ => String.ofList_toList

/-- A carriage return inside a tag, which goes into a comment, and an empty literal at the end of a
line. -/
def returnInTag : String := "0\t(HALT\rRET, #, @c, )\r\n1\t(ASSIGN, #, x)\r"

theorem lines_of_compile_returnInTag :
    ('\n' ∉ Options.default.entry.toList ∧ '\r' ∉ Options.default.entry.toList)
    ∧ ∃ output p, compile .default returnInTag = .ok output
      ∧ Program.generate .default (Instruction.ofText returnInTag) = .ok p
      ∧ (Text.lines output.toList).map String.ofList = p.lines.map Line.text
      ∧ p.lines[3]?.map Line.text = some "; Unsupported: HALT\rRET # @c "
      ∧ p.lines[4]?.map Line.text = some "MOV x0, #" := by
  have hentry : '\n' ∉ Options.default.entry.toList ∧ '\r' ∉ Options.default.entry.toList := by
    decide
  have hgenerate : Program.generate .default (Instruction.ofText returnInTag)
      = .ok (.layout .default (Instruction.ofText returnInTag)) :=
    Program.generate_of_faultless (by decide)
  have hcompile : compile .default returnInTag
      = .ok (Program.layout .default (Instruction.ofText returnInTag)).text := by
    rw [compile, hgenerate]
    rfl
  obtain ⟨p, hp, hlines⟩ := lines_of_compile hentry hcompile
  cases hgenerate.symm.trans hp
  exact ⟨hentry, _, _, hcompile, hp, hlines, by decide, by decide⟩

end Compilation

end ThreeAddress
