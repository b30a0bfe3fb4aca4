import ThreeAddress.Generator
import ThreeAddress.Proofs.Registers

/-!
# What a generator holds while it emits

An instruction is tried once. If it has no fault it leaves its block and a span; otherwise only its
label line stays, and the keys that it had bound before the fault (`Tried.emitNext_eq`). So what a
generator holds after its first tries depends on the stream alone, whether they failed or not
(`Tried`), and after the print routine it holds `Program.residue`. Each try is lowered while the
table is still growing; the lines come out as the finished table has them (`remainsOf_concat`).
-/

namespace ThreeAddress

open Assembly (Line)

namespace Lowering

theorem Fault.index?_error (index : Nat) (opcode : Opcode) (f : Fault) :
    (f.error index opcode).index? = some index := by
  cases f <;> rfl

/-- The instruction asks for nothing that it cannot have. -/
def Faultless (labels : Labels) (strict : Bool) (i : Instruction) : Prop :=
  fault? (touches labels strict i) = none

instance (labels : Labels) (strict : Bool) (i : Instruction) :
    Decidable (Faultless labels strict i) :=
  inferInstanceAs (Decidable (_ = none))

/-- The lines of an instruction, its label line first. -/
def block (register : Key → Assembly.Register) (labels : Labels) (index : Nat) (i : Instruction) :
    List Line :=
  Generator.labelLines labels index ++ lines register labels i

/-- What stays of an instruction that was tried. -/
def remains (register : Key → Assembly.Register) (labels : Labels) (strict : Bool) (index : Nat)
    (i : Instruction) : List Line :=
  if Faultless labels strict i then block register labels index i
  else Generator.labelLines labels index

/-- The table once the instructions have been lowered. -/
def bindingsOf (labels : Labels) (strict : Bool) (is : List Instruction) : Bindings :=
  Bindings.empty.insertAll (is.flatMap fun i => keysBeforeFault (touches labels strict i))

def remainsOf (labels : Labels) (strict : Bool) (is : List Instruction) : List (List Line) :=
  is.mapIdx (remains (bindingsOf labels strict is).register labels strict)

variable {labels : Labels} {strict : Bool} {is : List Instruction}

theorem bindingsOf_concat (labels : Labels) (strict : Bool) (is : List Instruction)
    (i : Instruction) : bindingsOf labels strict (is ++ [i])
      = (bindingsOf labels strict is).insertAll (keysBeforeFault (touches labels strict i)) := by
  simp [bindingsOf, List.flatMap_append, Bindings.insertAll_append]

theorem mem_bindingsOf {k : Key} : k ∈ (bindingsOf labels strict is).keys
    ↔ ∃ i ∈ is, k ∈ keysBeforeFault (touches labels strict i) := by
  simp [bindingsOf, Bindings.mem_insertAll, Bindings.empty]

theorem length_remainsOf (labels : Labels) (strict : Bool) (is : List Instruction) :
    (remainsOf labels strict is).length = is.length :=
  List.length_mapIdx

/-- What stays of earlier instructions is the same when one more instruction is tried. -/
theorem remainsOf_concat (labels : Labels) (strict : Bool) (is : List Instruction)
    (i : Instruction) : remainsOf labels strict (is ++ [i]) = remainsOf labels strict is
      ++ [remains (bindingsOf labels strict (is ++ [i])).register labels strict is.length i] := by
  rw [remainsOf, List.mapIdx_concat, remainsOf]
  congr 1
  refine List.mapIdx_eq_mapIdx_iff.2 fun j hj => ?_
  have hi : is[j] ∈ is := List.getElem_mem hj
  unfold remains
  split
  · next hf =>
    rw [block, block, bindingsOf_concat,
      lines_insertAll hf fun k hk => mem_bindingsOf.2 ⟨_, hi, hk⟩]
  · rfl

end Lowering

/-- The spans of blocks that follow each other without a gap. -/
def Span.consecutive : Nat → List (List Line) → List Span
  | _, [] => []
  | start, b :: bs => ⟨start, start + b.length⟩ :: consecutive (start + b.length) bs

namespace Span

theorem length_consecutive : ∀ (start : Nat) (bs : List (List Line)),
    (consecutive start bs).length = bs.length
  | _, [] => rfl
  | _, _ :: bs => congrArg (· + 1) (length_consecutive _ bs)

theorem consecutive_append : ∀ (start : Nat) (bs cs : List (List Line)),
    consecutive start (bs ++ cs)
      = consecutive start bs ++ consecutive (start + bs.flatten.length) cs
  | _, [], _ => rfl
  | start, b :: bs, cs => by
    simp only [List.cons_append, consecutive, List.flatten_cons, List.length_append]
    rw [consecutive_append, Nat.add_assoc]

theorem getElem?_consecutive : ∀ (start : Nat) (bs : List (List Line)) (k : Nat),
    (consecutive start bs)[k]? = bs[k]?.map fun b =>
      ⟨start + (bs.take k).flatten.length, start + (bs.take k).flatten.length + b.length⟩
  | _, [], _ => rfl
  | _, _ :: _, 0 => by simp [consecutive]
  | start, b :: bs, k + 1 => by
    simp only [consecutive, List.getElem?_cons_succ, List.take_succ_cons, List.flatten_cons,
      List.length_append]
    rw [getElem?_consecutive, Nat.add_assoc]

/-- Each span has the lines of its block. -/
theorem map_linesIn_consecutive {p : Program} {before after : List Line} :
    ∀ bs : List (List Line), p.lines = before ++ bs.flatten ++ after →
      (consecutive before.length bs).map p.linesIn = bs
  | [], _ => rfl
  | b :: bs, h => by
    have htail : p.lines = (before ++ b) ++ bs.flatten ++ after := by simp [h]
    have hrest := map_linesIn_consecutive bs htail
    rw [List.length_append] at hrest
    rw [consecutive, List.map_cons, hrest, Program.linesIn, htail]
    simp [List.take_append]

end Span

/-- The phase of a generator that has tried so many instructions. -/
def Phase.tried : Nat → Phase
  | 0 => .labelsDiscovered
  | k + 1 => .emitting k

theorem Phase.nextIndex_tried : ∀ k : Nat, (tried k).nextIndex = k
  | 0 => rfl
  | _ + 1 => rfl

theorem Phase.tried_precedes {n k : Nat} (h : k < n) :
    (tried k).precedes n (tried (k + 1)) = true := by
  cases k <;> simp [tried, precedes, h]

theorem Phase.tried_precedes_trailer {n k : Nat} :
    (tried k).precedes n .trailerEmitted = decide (k = n) := by
  rcases k with _ | k <;> rw [Bool.eq_iff_iff]
  · simpa [tried, precedes] using eq_comm
  · simp [tried, precedes]

namespace Lowering

/-- The spans of the instructions without a fault. -/
def spansOf (labels : Labels) (strict : Bool) (is : List Instruction) : List Span :=
  (((Span.consecutive 3 (remainsOf labels strict is)).zip is).filter
    fun x => Faultless labels strict x.2).map Prod.fst

theorem spansOf_concat (labels : Labels) (strict : Bool) (is : List Instruction)
    (i : Instruction) : spansOf labels strict (is ++ [i]) = spansOf labels strict is
      ++ if Faultless labels strict i then
          [⟨3 + (remainsOf labels strict is).flatten.length,
            3 + (remainsOf labels strict (is ++ [i])).flatten.length⟩]
        else [] := by
  have hlen : (Span.consecutive 3 (remainsOf labels strict is)).length = is.length := by
    rw [Span.length_consecutive, length_remainsOf]
  rw [spansOf, remainsOf_concat, Span.consecutive_append, List.zip_append hlen,
    List.filter_append, List.map_append, ← spansOf]
  by_cases hf : Faultless labels strict i <;> simp [Span.consecutive, hf, Nat.add_assoc]

/-- What is reported while the instructions are lowered, each with the table of those before it. -/
def eventsOf (labels : Labels) (options : Options) (is : List Instruction) : List Event :=
  is.zipIdx.flatMap fun (i, index) =>
    (i.lower labels options (bindingsOf labels options.strict (is.take index)) index).events

theorem eventsOf_concat (labels : Labels) (options : Options) (is : List Instruction)
    (i : Instruction) : eventsOf labels options (is ++ [i]) = eventsOf labels options is
      ++ (i.lower labels options (bindingsOf labels options.strict is) is.length).events := by
  simp only [eventsOf, List.zipIdx_append, List.flatMap_append, List.zipIdx_singleton,
    List.flatMap_singleton, Nat.zero_add, List.take_left']
  congr 1
  refine List.flatMap_congr fun x hx => ?_
  have hindex : x.2 < is.length := by simpa using List.snd_lt_add_of_mem_zipIdx hx
  rw [List.take_append_of_le_length (Nat.le_of_lt hindex)]

end Lowering

open Lowering in
/-- The program that is left when every instruction of a stream has been tried. -/
def Program.residue (options : Options) (stream : List Instruction) : Program :=
  let labels := Labels.ofStream stream
  { lines := Assembly.header options.entry ++ (remainsOf labels options.strict stream).flatten
      ++ Assembly.PrintInt.routine
    bindings := bindingsOf labels options.strict stream
    labels
    spans := spansOf labels options.strict stream }

namespace Lowering

/-- What stays of the instructions without a fault are their blocks. -/
theorem filter_remains (register : Key → Assembly.Register) (labels : Labels) (strict : Bool)
    (is : List Instruction) :
    (((is.mapIdx (remains register labels strict)).zip is).filter
        fun x => Faultless labels strict x.2).map Prod.fst
      = (is.zipIdx.filter fun x => Faultless labels strict x.1).map fun x =>
        block register labels x.2 x.1 := by
  have hzip : (is.mapIdx (remains register labels strict)).zip is
      = is.zipIdx.map fun x => (remains register labels strict x.2 x.1, x.1) := by
    rw [← List.zip_map', List.zipIdx_map_fst, List.mapIdx_eq_zipIdx_map]
  rw [hzip, List.filter_map, List.map_map]
  refine List.map_congr_left fun x hx => if_pos ?_
  exact of_decide_eq_true (List.mem_filter.1 hx).2

end Lowering

open Lowering in
/-- The residue has a block for each instruction without a fault, and no other. -/
theorem Program.blocks_residue (options : Options) (stream : List Instruction) :
    (residue options stream).blocks = (stream.zipIdx.filter fun x =>
      Faultless (.ofStream stream) options.strict x.1).map fun x =>
        block (residue options stream).bindings.register (.ofStream stream) x.2 x.1 := by
  have hlines : (residue options stream).lines = Assembly.header options.entry
      ++ (remainsOf (.ofStream stream) options.strict stream).flatten
      ++ Assembly.PrintInt.routine := rfl
  have hblocks : (residue options stream).blocks
      = ((((Span.consecutive 3 (remainsOf (.ofStream stream) options.strict stream)).map
        (residue options stream).linesIn).zip stream).filter
          fun x => Faultless (.ofStream stream) options.strict x.2).map Prod.fst := by
    rw [List.zip_map_left, List.filter_map, List.map_map, blocks, residue, spansOf, List.map_map]
    rfl
  have hmap : (Span.consecutive 3 (remainsOf (.ofStream stream) options.strict stream)).map
      (residue options stream).linesIn = remainsOf (.ofStream stream) options.strict stream :=
    Span.map_linesIn_consecutive _ hlines
  rw [hblocks, hmap, ← filter_remains]
  rfl

namespace Generation

variable {α β : Type} {x : Generation α} {f : α → Generation β} {g g' : Generator}

theorem bind_ok {a : α} (h : x g = .ok a g') : (x >>= f) g = f a g' := by
  show EStateM.bind x f g = _
  rw [EStateM.bind, h]

theorem bind_error {e : CompileError} (h : x g = .error e g') : (x >>= f) g = .error e g' := by
  show EStateM.bind x f g = _
  rw [EStateM.bind, h]

end Generation

namespace Generator

open Lowering

variable {options : Options} {stream : List Instruction} {k : Nat} {g : Generator}

/-- The generator has tried the first `k` instructions of the stream. -/
structure Tried (options : Options) (stream : List Instruction) (k : Nat) (g : Generator) :
    Prop where
  stream_eq : g.stream = stream
  options_eq : g.options = options
  phase_eq : g.phase = .tried k
  labels_eq : g.labels = .ofStream stream
  bindings_eq : g.bindings = bindingsOf (.ofStream stream) options.strict (stream.take k)
  lines_eq : g.lines = Assembly.header options.entry
    ++ (remainsOf (.ofStream stream) options.strict (stream.take k)).flatten
  spans_eq : g.spans = spansOf (.ofStream stream) options.strict (stream.take k)
  events_eq : g.events
    = discoveryEvents stream ++ eventsOf (.ofStream stream) options (stream.take k)

theorem discoverLabels_start (options : Options) (stream : List Instruction) :
    ∃ g, discoverLabels (.start options stream) = .ok () g ∧ Tried options stream 0 g :=
  ⟨_, rfl, rfl, rfl, rfl, rfl, rfl, rfl, rfl, (List.append_nil _).symm⟩

/-- What trying an instruction answers. -/
def verdict (labels : Labels) (strict : Bool) (index : Nat) (i : Instruction) :
    Except CompileError Unit :=
  match fault? (touches labels strict i) with
  | none => .ok ()
  | some f => .error (f.error index i.opcode)

/-- The next instruction is tried, and the generator goes on to the one after it even if it
fails. -/
theorem Tried.emitNext_eq (h : Tried options stream k g) (hk : k < stream.length) :
    ∃ g', Tried options stream (k + 1) g' ∧ emitNext g
      = match verdict (.ofStream stream) options.strict k stream[k] with
        | .ok () => .ok () g'
        | .error e => .error e g' := by
  obtain ⟨s, o, p, b, l, ls, ss, es⟩ := g
  obtain ⟨hs, ho, hp, hl, hb, hls, hss, hes⟩ := h
  simp only at hs ho hp hl hb hls hss hes
  subst hs ho hp hl hb hls hss hes
  have htake : s.take (k + 1) = s.take k ++ [s[k]] := (List.take_append_getElem hk).symm
  have hlen : (s.take k).length = k := by simp; omega
  have hremains := remainsOf_concat (.ofStream s) o.strict (s.take k) s[k]
  have hspans := spansOf_concat (.ofStream s) o.strict (s.take k) s[k]
  have hbindings := bindingsOf_concat (.ofStream s) o.strict (s.take k) s[k]
  have hevents := eventsOf_concat (.ofStream s) o (s.take k) s[k]
  rw [hremains] at hspans
  rw [← htake] at hremains hspans hbindings hevents
  rw [hlen] at hremains hspans hevents
  simp only [emitNext, Phase.nextIndex_tried,
    show Phase.emitting k = .tried (k + 1) from rfl, Phase.tried_precedes hk, dite_true,
    Instruction.lower, verdict] at hevents ⊢
  rcases hf : fault? (touches (.ofStream s) o.strict s[k]) with _ | f
  · have hfaultless : Faultless (.ofStream s) o.strict s[k] := hf
    refine ⟨_, ⟨rfl, rfl, rfl, rfl, hbindings.symm, ?_, ?_, ?_⟩, rfl⟩
    · simp [hremains, hbindings, remains, hfaultless, block]
    · simp [hspans, hbindings, remains, hfaultless, block, Assembly.header]
      omega
    · simp [hevents, hf]
  · have hfaulty : ¬ Faultless (.ofStream s) o.strict s[k] := by simp [Faultless, hf]
    refine ⟨_, ⟨rfl, rfl, rfl, rfl, hbindings.symm, ?_, ?_, ?_⟩, rfl⟩
    · simp [hremains, remains, hfaulty]
    · simp [hspans, hfaulty]
    · simp [hevents, hf]

theorem Tried.emitTrailer_ok (h : Tried options stream stream.length g) :
    ∃ g', emitTrailer g = .ok () g' ∧ g'.events = g.events ∧ g'.phase = .trailerEmitted
      ∧ g'.program = .residue options stream := by
  obtain ⟨s, o, p, b, l, ls, ss, es⟩ := g
  obtain ⟨hs, ho, hp, hl, hb, hls, hss, -⟩ := h
  simp only at hs ho hp hl hb hls hss
  subst hs ho hp hl hb hls hss
  simp only [emitTrailer, Phase.tried_precedes_trailer, decide_true, if_true]
  refine ⟨_, rfl, rfl, rfl, ?_⟩
  simp [program, Program.residue]

theorem finish_of_trailer (h : g.phase = .trailerEmitted) :
    finish g = .ok g.program { g with phase := .done } := by
  simp [finish, h, Phase.precedes]

end Generator

end ThreeAddress
