import ThreeAddress.Proofs.Attempts

/-!
# The layout of a program

A stream without a faulty instruction has one program, which `Program.layout` writes down as a
whole: the header, the block of each instruction, the print routine. Generation succeeds exactly on
such streams and gives that program (`generate_eq_ok_iff`); on any other stream it ends with the
fault of the first faulty instruction (`generate_eq_error_iff`).
-/

namespace ThreeAddress

open Assembly (Line)

namespace Lowering

def blocksOf (labels : Labels) (strict : Bool) (is : List Instruction) : List (List Line) :=
  is.mapIdx (block (bindingsOf labels strict is).register labels)

variable {labels : Labels} {strict : Bool} {is : List Instruction}

theorem length_blocksOf (labels : Labels) (strict : Bool) (is : List Instruction) :
    (blocksOf labels strict is).length = is.length :=
  List.length_mapIdx

theorem remainsOf_eq_blocksOf (h : ∀ i ∈ is, Faultless labels strict i) :
    remainsOf labels strict is = blocksOf labels strict is :=
  List.mapIdx_eq_mapIdx_iff.2 fun _ hj => if_pos (h _ (List.getElem_mem hj))

theorem spansOf_eq_consecutive (h : ∀ i ∈ is, Faultless labels strict i) :
    spansOf labels strict is = Span.consecutive 3 (blocksOf labels strict is) := by
  rw [spansOf, remainsOf_eq_blocksOf h, List.filter_eq_self.2, List.map_fst_zip]
  · exact Nat.le_of_eq (by rw [Span.length_consecutive, length_blocksOf])
  · exact fun x hx => decide_eq_true (h _ (List.of_mem_zip hx).2)

end Lowering

open Lowering in
/-- The program of a stream without faults. -/
def Program.layout (options : Options) (stream : List Instruction) : Program :=
  let labels := Labels.ofStream stream
  let blocks := blocksOf labels options.strict stream
  { lines := Assembly.header options.entry ++ blocks.flatten ++ Assembly.PrintInt.routine
    bindings := bindingsOf labels options.strict stream
    labels
    spans := Span.consecutive 3 blocks }

theorem Program.blocks_layout (options : Options) (stream : List Instruction) :
    (layout options stream).blocks
      = Lowering.blocksOf (.ofStream stream) options.strict stream :=
  @Span.map_linesIn_consecutive (layout options stream) (Assembly.header options.entry)
    Assembly.PrintInt.routine _ rfl

theorem Program.length_spans_layout (options : Options) (stream : List Instruction) :
    (layout options stream).spans.length = stream.length :=
  (Span.length_consecutive _ _).trans (Lowering.length_blocksOf _ _ _)

open Lowering in
/-- Every key that an instruction of the stream asks for is bound in the end. -/
theorem Program.mem_bindings_layout {options : Options} {stream : List Instruction}
    {i : Instruction} (hi : i ∈ stream) (hf : Faultless (.ofStream stream) options.strict i)
    {k : Key} (hk : .key k ∈ touches (.ofStream stream) options.strict i) :
    k ∈ (layout options stream).bindings.keys :=
  mem_bindingsOf.2 ⟨i, hi, (mem_keysBeforeFault hf).2 hk⟩

open Lowering in
theorem Program.residue_eq_layout {options : Options} {stream : List Instruction}
    (h : ∀ i ∈ stream, Faultless (.ofStream stream) options.strict i) :
    residue options stream = layout options stream := by
  simp only [residue, layout, remainsOf_eq_blocksOf h, spansOf_eq_consecutive h]

open Lowering in
/-- The instruction is the first of the stream that has a fault. -/
structure FirstFault (options : Options) (stream : List Instruction) (k : Nat) (i : Instruction)
    (f : Fault) : Prop where
  getElem? : stream[k]? = some i
  fault : fault? (touches (.ofStream stream) options.strict i) = some f
  before : ∀ j ∈ stream.take k, Faultless (.ofStream stream) options.strict j

namespace FirstFault

variable {options : Options} {stream : List Instruction} {k l : Nat} {i j : Instruction}
  {f e : Lowering.Fault}

theorem not_faultless (h : FirstFault options stream k i f) :
    ¬ Lowering.Faultless (.ofStream stream) options.strict i := by
  simp [Lowering.Faultless, h.fault]

theorem le_of_faulty (h : FirstFault options stream k i f) (hj : stream[l]? = some j)
    (hfaulty : ¬ Lowering.Faultless (.ofStream stream) options.strict j) : k ≤ l := by
  by_contra hlt
  have hmem : j ∈ stream.take k := by
    refine List.mem_of_getElem? (i := l) ?_
    rw [List.getElem?_take_of_lt (by omega), hj]
  exact hfaulty (h.before j hmem)

theorem le (h : FirstFault options stream k i f) (h' : FirstFault options stream l j e) :
    k ≤ l :=
  h.le_of_faulty h'.getElem? h'.not_faultless

theorem unique (h : FirstFault options stream k i f) (h' : FirstFault options stream l j e) :
    k = l ∧ i = j ∧ f = e := by
  cases Nat.le_antisymm (h.le h') (h'.le h)
  cases Option.some.inj (h.getElem?.symm.trans h'.getElem?)
  exact ⟨rfl, rfl, Option.some.inj (h.fault.symm.trans h'.fault)⟩

end FirstFault

namespace Generator

open Lowering

variable {options : Options} {stream : List Instruction} {k : Nat} {g : Generator}

theorem run_eq (g : Generator) : run g = (discoverLabels >>= fun _ => get >>= fun h =>
    (h.stream.forM fun _ => emitNext) >>= fun _ => emitTrailer >>= fun _ => finish >>= fun p =>
      modify (fun g => { g with events := g.events ++ [summary p] }) >>= fun _ => pure p) g :=
  rfl

/-- So many calls lower the next instructions, or end at the first one that has a fault. -/
theorem Tried.emit_many (l : List Instruction) (h : Tried options stream k g)
    (hall : ∀ i ∈ stream.take k, Faultless (.ofStream stream) options.strict i)
    (hl : k + l.length ≤ stream.length) :
    (∃ g', (l.forM fun _ => emitNext) g = .ok () g' ∧ Tried options stream (k + l.length) g'
        ∧ ∀ i ∈ stream.take (k + l.length), Faultless (.ofStream stream) options.strict i)
      ∨ ∃ j i f g', FirstFault options stream j i f ∧ Tried options stream (j + 1) g'
        ∧ (l.forM fun _ => emitNext) g = .error (f.error j i.opcode) g' := by
  induction l generalizing k g with
  | nil => exact .inl ⟨g, rfl, h, hall⟩
  | cons i l ih =>
    rw [List.length_cons] at hl
    have hk : k < stream.length := by omega
    obtain ⟨g₁, hg₁, h₁⟩ := h.emitNext_eq hk
    rcases hf : fault? (touches (.ofStream stream) options.strict stream[k]) with _ | f
    · rw [verdict, hf] at h₁
      have hrun : ((i :: l).forM fun _ => emitNext) g = (l.forM fun _ => emitNext) g₁ :=
        Generation.bind_ok h₁
      rw [hrun, List.length_cons, Nat.add_comm l.length, ← Nat.add_assoc]
      refine ih hg₁ (fun j hj => ?_) (by omega)
      rw [← List.take_append_getElem hk] at hj
      rcases List.mem_append.1 hj with hj | hj
      · exact hall j hj
      · rw [List.mem_singleton.1 hj]
        exact hf
    · rw [verdict, hf] at h₁
      exact .inr ⟨k, stream[k], f, g₁, ⟨List.getElem?_eq_getElem hk, hf, hall⟩, hg₁,
        Generation.bind_error h₁⟩

/-- A whole run, and what has been reported when it ends. -/
theorem run_cases (options : Options) (stream : List Instruction) :
    ((∀ i ∈ stream, Faultless (.ofStream stream) options.strict i)
        ∧ ∃ g, run (.start options stream) = .ok (.layout options stream) g
          ∧ g.events = discoveryEvents stream ++ eventsOf (.ofStream stream) options stream
            ++ [summary (.layout options stream)])
      ∨ ∃ k i f, FirstFault options stream k i f
        ∧ ∃ g, run (.start options stream) = .error (f.error k i.opcode) g
          ∧ g.events = discoveryEvents stream
            ++ eventsOf (.ofStream stream) options (stream.take (k + 1)) := by
  obtain ⟨g₀, h₀, hg₀⟩ := discoverLabels_start options stream
  have hget : (get : Generation Generator) g₀ = .ok g₀ g₀ := rfl
  rcases hg₀.emit_many stream (by simp) (by omega) with
    ⟨g₁, h₁, hg₁, hall⟩ | ⟨k, i, f, g₁, hfirst, hg₁, h₁⟩
  · rw [Nat.zero_add] at hg₁ hall
    rw [List.take_length] at hall
    obtain ⟨g₂, h₂, hevents, hphase, hprogram⟩ := hg₁.emitTrailer_ok
    rw [hg₁.events_eq, List.take_length] at hevents
    rw [← hg₀.stream_eq] at h₁
    refine .inl ⟨hall, { g₂ with
      phase := .done
      events := g₂.events ++ [summary (.layout options stream)] }, ?_, by rw [hevents]⟩
    rw [run_eq, Generation.bind_ok h₀, Generation.bind_ok hget, Generation.bind_ok h₁,
      Generation.bind_ok h₂, Generation.bind_ok (finish_of_trailer hphase), hprogram,
      Program.residue_eq_layout hall]
    rfl
  · rw [← hg₀.stream_eq] at h₁
    refine .inr ⟨k, i, f, hfirst, g₁, ?_, hg₁.events_eq⟩
    rw [run_eq, Generation.bind_ok h₀, Generation.bind_ok hget, Generation.bind_error h₁]

end Generator

namespace Program

open Lowering Generator

variable {options : Options} {stream : List Instruction} {p : Program}

theorem generate_cases (options : Options) (stream : List Instruction) :
    ((∀ i ∈ stream, Faultless (.ofStream stream) options.strict i)
        ∧ generate options stream = .ok (.layout options stream))
      ∨ ∃ k i f, FirstFault options stream k i f
        ∧ generate options stream = .error (f.error k i.opcode) := by
  rcases run_cases options stream with ⟨hall, g, hrun, -⟩ | ⟨k, i, f, hfirst, g, hrun, -⟩
  · exact .inl ⟨hall, by rw [generate, hrun]⟩
  · exact .inr ⟨k, i, f, hfirst, by rw [generate, hrun]⟩

theorem generate_of_faultless
    (h : ∀ i ∈ stream, Faultless (.ofStream stream) options.strict i) :
    generate options stream = .ok (.layout options stream) := by
  rcases generate_cases options stream with ⟨-, hp⟩ | ⟨k, i, f, hfirst, -⟩
  · exact hp
  · exact absurd (h i (List.mem_of_getElem? hfirst.getElem?)) hfirst.not_faultless

/-- Generation succeeds exactly on streams without faults, and always with the same layout. -/
theorem generate_eq_ok_iff : generate options stream = .ok p
    ↔ (∀ i ∈ stream, Faultless (.ofStream stream) options.strict i)
      ∧ p = .layout options stream := by
  refine ⟨fun h => ?_, fun ⟨hf, hp⟩ => hp ▸ generate_of_faultless hf⟩
  rcases generate_cases options stream with ⟨hf, hp⟩ | ⟨k, i, f, -, he⟩
  · exact ⟨hf, Except.ok.inj (h.symm.trans hp)⟩
  · cases h.symm.trans he

theorem generate_eq_error_iff {e : CompileError} : generate options stream = .error e
    ↔ ∃ k i f, FirstFault options stream k i f ∧ e = f.error k i.opcode := by
  rcases generate_cases options stream with ⟨hf, hp⟩ | ⟨k, i, f, hfirst, he⟩
  · refine ⟨fun h => (nomatch h.symm.trans hp), fun ⟨k, i, f, hfirst, _⟩ => ?_⟩
    exact absurd (hf i (List.mem_of_getElem? hfirst.getElem?)) hfirst.not_faultless
  · refine ⟨fun h => ⟨k, i, f, hfirst, Except.error.inj (h.symm.trans he)⟩, ?_⟩
    rintro ⟨k', i', f', hfirst', rfl⟩
    obtain ⟨rfl, rfl, rfl⟩ := hfirst.unique hfirst'
    exact he

end Program

end ThreeAddress
