import ThreeAddress.Compilation
import ThreeAddress.Proofs.Accounting
import ThreeAddress.Proofs.References

/-!
# What a log tells

A log has up to four stages, one after the other, and the kind of an event tells its stage
(`Event.Kind.stage`). So all events of a kind can be found in one stage. Lowering an instruction
reports it, then the keys that are new to the table, then nothing of these two kinds
(`Lowering.events_lower`); hence, after so many instructions, the log has named each of them once
and has bound the table as it is then (`Lowering.only_lowering_eventsOf`,
`Lowering.only_bound_eventsOf`), whether the last one failed or not. The log of a text tells its
report, its labels, and either its program or where and how far generation came
(`Compilation.log_tells`).
-/

namespace ThreeAddress

namespace Event

inductive Kind where
  | diagnosed
  | loaded
  | targets
  | pastEnd
  | discovered
  | lowering
  | bound
  | branchIfZero
  | unsupported
  | undeclared
  | dropped
  | generated
  deriving DecidableEq, Repr

def kind : Event → Kind
  | .diagnosed .. => .diagnosed
  | .loaded .. => .loaded
  | .targets .. => .targets
  | .pastEnd .. => .pastEnd
  | .discovered .. => .discovered
  | .lowering .. => .lowering
  | .bound .. => .bound
  | .branchIfZero .. => .branchIfZero
  | .unsupported .. => .unsupported
  | .undeclared .. => .undeclared
  | .dropped .. => .dropped
  | .generated .. => .generated

inductive Stage where
  | loading
  | discovery
  | lowering
  | summary
  deriving DecidableEq, Repr

def Kind.stage : Kind → Stage
  | .diagnosed | .loaded => .loading
  | .targets | .pastEnd | .discovered => .discovery
  | .lowering | .bound | .branchIfZero | .unsupported | .undeclared | .dropped => .lowering
  | .generated => .summary

/-- The events of a kind, in their order. -/
def only (k : Kind) (es : List Event) : List Event :=
  es.filter (·.kind = k)

variable {e : Event} {es es' : List Event} {k : Kind} {s : Stage}

theorem only_append (k : Kind) (es es' : List Event) :
    only k (es ++ es') = only k es ++ only k es' :=
  List.filter_append _ _

theorem only_eq_self (h : ∀ e ∈ es, e.kind = k) : only k es = es :=
  List.filter_eq_self.2 fun e he => decide_eq_true (h e he)

theorem only_eq_nil (h : ∀ e ∈ es, e.kind ≠ k) : only k es = [] :=
  List.filter_eq_nil_iff.2 fun e he => by simpa using h e he

theorem only_map_self {α : Type} {f : α → Event} (h : ∀ x, (f x).kind = k) (xs : List α) :
    only k (xs.map f) = xs.map f :=
  only_eq_self fun e he => by
    obtain ⟨x, -, rfl⟩ := List.mem_map.1 he
    exact h x

theorem only_map_nil {α : Type} {f : α → Event} (h : ∀ x, (f x).kind ≠ k) (xs : List α) :
    only k (xs.map f) = [] :=
  only_eq_nil fun e he => by
    obtain ⟨x, -, rfl⟩ := List.mem_map.1 he
    exact h x

/-- A stage has no events of the kinds of other stages. -/
theorem only_of_stage_ne (h : ∀ e ∈ es, e.kind.stage = s) (hk : k.stage ≠ s) : only k es = [] :=
  only_eq_nil fun e he heq => hk (by rw [← heq, h e he])

theorem level_eq_info_iff : e.level = .info ↔ e.kind.stage = .summary := by
  cases e <;> simp [level, kind, Kind.stage]

theorem loading_warn_iff : e.kind.stage = .loading ∧ e.level = .warn ↔ e.kind = .diagnosed := by
  cases e <;> simp [level, kind, Kind.stage]

/-- What of an event stands in a log. -/
def record (e : Event) : Level × String := (e.level, e.message)

/-- The events that tell these bindings. -/
def ofBindings (bs : List (Key × Assembly.Register)) : List Event :=
  bs.map fun (k, r) => .bound k r

theorem map_record_ofBindings (bs : List (Key × Assembly.Register)) :
    (ofBindings bs).map record
      = bs.map fun (k, r) => (.trace, "bind " ++ k.text ++ " -> " ++ r.text) :=
  List.map_map

theorem map_record_mapIdx (f : Nat → Instruction → Event) (is : List Instruction) :
    (is.mapIdx f).map record = is.mapIdx fun k i => (f k i).record := by
  rw [List.mapIdx_eq_zipIdx_map, List.mapIdx_eq_zipIdx_map, List.map_map]
  rfl

end Event

open Event (record map_record_ofBindings map_record_mapIdx only only_append only_eq_self
  only_eq_nil only_map_self only_map_nil only_of_stage_ne ofBindings)

section Loading

theorem Entry.stage_of_mem {e : Event} {entries : List Entry}
    (h : e ∈ entries.map Entry.event) : e.kind.stage = .loading := by
  obtain ⟨entry, -, rfl⟩ := List.mem_map.1 h
  cases entry <;> rfl

theorem Entry.only_diagnosed (entries : List Entry) :
    only .diagnosed (entries.map Entry.event)
      = (entries.filterMap Entry.diagnostic?).map .diagnosed := by
  induction entries with
  | nil => rfl
  | cons entry entries ih =>
    have hcons : only .diagnosed (entry.event :: entries.map Entry.event)
        = only .diagnosed [entry.event] ++ only .diagnosed (entries.map Entry.event) :=
      only_append _ [entry.event] _
    rw [List.map_cons, hcons, ih]
    cases entry <;> rfl

theorem Entry.record_diagnosed (entries : List Entry) :
    (only .diagnosed (entries.map Entry.event)).map record
      = (entries.filterMap Entry.diagnostic?).map fun d =>
        (.warn, d.location.text ++ ": " ++ d.message) := by
  rw [only_diagnosed, List.map_map]
  rfl

/-- Instructions are reported with the number of those before them. -/
theorem Record.only_loaded (filename : String) (number index : Nat) (rs : List Record) :
    only .loaded ((entriesFrom filename number index rs).map Entry.event)
      = ((entriesFrom filename number index rs).filterMap Entry.instruction?).mapIdx
        fun k i => .loaded (index + k) i := by
  induction rs generalizing number index with
  | nil => rfl
  | cons r rs ih =>
    have hhere : only .loaded ((r.entries filename number index).map Entry.event)
        = ((r.entries filename number index).filterMap Entry.instruction?).mapIdx
          fun k i => .loaded (index + k) i := by
      cases r with
      | blank | malformed fields => rfl
      | instruction opcode a1 a2 a3 surplus =>
        rw [entries_instruction]
        split <;> rfl
    have hlength : ((r.entries filename number index).filterMap Entry.instruction?).length
        = r.count := by
      rw [instructions_entries, List.length_map, length_parts?]
    rw [entriesFrom, List.map_append, only_append, hhere, ih, List.filterMap_append,
      List.mapIdx_append, hlength]
    simp only [Nat.add_assoc, Nat.add_comm r.count]

theorem Report.record_loaded (filename text : String) :
    (only .loaded ((ofText filename text).entries.map Entry.event)).map record
      = (ofText filename text).instructions.mapIdx fun k i =>
        (.debug, "loaded #" ++ toString k ++ ": " ++ i.text) := by
  have hloaded := Record.only_loaded filename 1 0 ((Text.lines text.toList).map Record.ofLine)
  simp only [Nat.zero_add] at hloaded
  rw [ofText, hloaded, map_record_mapIdx]
  rfl

end Loading

namespace Generator

variable {e : Event} {stream : List Instruction}

theorem kind_targets (h : e ∈ stream.zipIdx.filterMap fun (i, index) =>
    i.jumpAddress?.map (.targets index i.opcode)) : e.kind = .targets := by
  obtain ⟨x, -, h⟩ := List.mem_filterMap.1 h
  obtain ⟨t, -, rfl⟩ := Option.map_eq_some_iff.1 h
  rfl

theorem stage_discovery (h : e ∈ discoveryEvents stream) : e.kind.stage = .discovery := by
  rw [discoveryEvents, List.append_assoc] at h
  rcases List.mem_append.1 h with h | h
  · rw [kind_targets h]
    rfl
  · rcases List.mem_append.1 h with h | h
    · obtain ⟨t, -, rfl⟩ := List.mem_map.1 h
      rfl
    · rw [List.mem_singleton.1 h]
      rfl

theorem only_targets (stream : List Instruction) : only .targets (discoveryEvents stream)
    = stream.zipIdx.filterMap fun (i, index) => i.jumpAddress?.map (.targets index i.opcode) := by
  rw [discoveryEvents, only_append, only_append, only_eq_self fun e => kind_targets,
    only_map_nil fun t => ?_, List.append_nil]
  · exact List.append_nil _
  · exact nofun

theorem only_pastEnd (stream : List Instruction) : only .pastEnd (discoveryEvents stream)
    = (Labels.ofStream stream).dangling.map (.pastEnd · stream.length) := by
  rw [discoveryEvents, only_append, only_append, only_map_self fun t => ?_,
    only_eq_nil fun e he => ?_]
  · exact List.append_nil _
  · rw [kind_targets he]
    exact nofun
  · rfl

theorem record_targets (stream : List Instruction) :
    (only .targets (discoveryEvents stream)).map record
      = stream.zipIdx.filterMap fun (i, k) => i.jumpAddress?.map fun t =>
        (.debug, "#" ++ toString k ++ ": " ++ i.opcode.tag ++ " targets " ++ toString t) := by
  rw [only_targets, List.map_filterMap]
  exact List.filterMap_congr fun x _ => Option.map_map _ _ _

theorem record_pastEnd (stream : List Instruction) :
    (only .pastEnd (discoveryEvents stream)).map record
      = (Labels.ofStream stream).dangling.map fun t =>
        (.warn, "jump target " ++ toString t ++ " is past the end of the stream ("
          ++ toString stream.length ++ " instructions)") := by
  rw [only_pastEnd, List.map_map]
  rfl

end Generator

namespace Bindings

theorem toList_append_added (b : Bindings) (ks : List Key) :
    b.toList ++ b.added (b.insertAll ks) = (b.insertAll ks).toList := by
  have hsize : b.toList.length = b.size := by simp [toList, size]
  rw [added, toList_eq_of_keys (keys_insertAll b ks), ← hsize, List.drop_left]

end Bindings

namespace Lowering

variable {labels : Labels} {options : Options} {b : Bindings} {index : Nat} {i : Instruction}
  {e : Event} {is : List Instruction}

theorem kind_targetEvents {target : Operand} (h : e ∈ targetEvents labels index i target) :
    e.kind = .undeclared ∨ e.kind = .dropped := by
  unfold targetEvents at h
  split at h
  · cases h
  · cases List.mem_singleton.1 h
    exact .inl rfl
  · cases List.mem_singleton.1 h
    exact .inr rfl

theorem kind_closingEvents (h : e ∈ closingEvents labels index i) :
    e.kind.stage = .lowering ∧ e.kind ≠ .lowering ∧ e.kind ≠ .bound := by
  have hkind : e.kind = .undeclared ∨ e.kind = .dropped ∨ e.kind = .branchIfZero
      ∨ e.kind = .unsupported := by
    unfold closingEvents at h
    split at h
    · rcases List.mem_append.1 h with h | h
      · rcases kind_targetEvents h with h | h
        · exact .inl h
        · exact .inr (.inl h)
      · obtain ⟨label, -, rfl⟩ := List.mem_map.1 h
        exact .inr (.inr (.inl rfl))
    · split at h
      · cases h
      · rcases kind_targetEvents h with h | h
        · exact .inl h
        · exact .inr (.inl h)
    · cases List.mem_singleton.1 h
      exact .inr (.inr (.inr rfl))
    · cases h
  rcases hkind with h | h | h | h <;> simp [h, Event.Kind.stage]

/-- The step: the instruction, the keys that are new, and behind them neither of these kinds. -/
theorem events_lower (labels : Labels) (options : Options) (b : Bindings) (index : Nat)
    (i : Instruction) : ∃ closing,
      (i.lower labels options b index).events = .lowering index i
        :: ofBindings (b.added (i.lower labels options b index).bindings) ++ closing
      ∧ (∀ e ∈ closing, e.kind.stage = .lowering ∧ e.kind ≠ .lowering ∧ e.kind ≠ .bound)
      ∧ (¬ Faultless labels options.strict i → closing = []) := by
  rcases hf : fault? (touches labels options.strict i) with _ | f
  · refine ⟨closingEvents labels index i, ?_, fun e => kind_closingEvents, fun h => absurd hf h⟩
    simp only [Instruction.lower, hf]
    rfl
  · refine ⟨[], ?_, fun e he => absurd he List.not_mem_nil, fun _ => rfl⟩
    simp only [Instruction.lower, hf]
    exact (List.append_nil _).symm

theorem stage_lower (h : e ∈ (i.lower labels options b index).events) :
    e.kind.stage = .lowering := by
  obtain ⟨closing, hevents, hclosing, -⟩ := events_lower labels options b index i
  rw [hevents, List.cons_append] at h
  rcases List.mem_cons.1 h with rfl | h
  · rfl
  · rcases List.mem_append.1 h with h | h
    · obtain ⟨x, -, rfl⟩ := List.mem_map.1 h
      rfl
    · exact (hclosing e h).1

theorem only_lowering_lower : only .lowering (i.lower labels options b index).events
    = [.lowering index i] := by
  obtain ⟨closing, hevents, hclosing, -⟩ := events_lower labels options b index i
  rw [hevents, List.cons_append, ← List.singleton_append, only_append, only_append, ofBindings,
    only_map_nil fun x => ?_, only_eq_nil fun e he => (hclosing e he).2.1]
  · rfl
  · exact nofun

theorem only_bound_lower : only .bound (i.lower labels options b index).events
    = ofBindings (b.added (i.lower labels options b index).bindings) := by
  obtain ⟨closing, hevents, hclosing, -⟩ := events_lower labels options b index i
  rw [hevents, List.cons_append, ← List.singleton_append, only_append, only_append, ofBindings,
    only_map_self fun x => ?_, only_eq_nil fun e he => (hclosing e he).2.2]
  · exact List.append_nil _
  · rfl

theorem stage_eventsOf (h : e ∈ eventsOf labels options is) : e.kind.stage = .lowering := by
  obtain ⟨x, -, h⟩ := List.mem_flatMap.1 h
  exact stage_lower h

/-- Each instruction that was tried is named once. -/
theorem only_lowering_eventsOf (labels : Labels) (options : Options) (is : List Instruction) :
    only .lowering (eventsOf labels options is) = is.mapIdx .lowering := by
  induction is using List.reverseRecOn with
  | nil => rfl
  | append_singleton is i ih =>
    rw [eventsOf_concat, only_append, ih, only_lowering_lower, List.mapIdx_concat]

/-- The keys that the tries added, one after the other, are the table. -/
theorem only_bound_eventsOf (labels : Labels) (options : Options) (is : List Instruction) :
    only .bound (eventsOf labels options is)
      = ofBindings (bindingsOf labels options.strict is).toList := by
  induction is using List.reverseRecOn with
  | nil => rfl
  | append_singleton is i ih =>
    rw [eventsOf_concat, only_append, ih, only_bound_lower, bindings_lower, bindingsOf_concat,
      ← Bindings.toList_append_added]
    exact List.map_append.symm

theorem record_lowering (labels : Labels) (options : Options) (is : List Instruction) :
    (only .lowering (eventsOf labels options is)).map record
      = is.mapIdx fun k i => (.debug, "#" ++ toString k ++ ": lowering " ++ i.text) := by
  rw [only_lowering_eventsOf, map_record_mapIdx]
  rfl

theorem record_bound (labels : Labels) (options : Options) (is : List Instruction) :
    (only .bound (eventsOf labels options is)).map record
      = (bindingsOf labels options.strict is).toList.map fun (k, r) =>
        (.trace, "bind " ++ k.text ++ " -> " ++ r.text) := by
  rw [only_bound_eventsOf, map_record_ofBindings]

/-- An instruction with a fault reports itself and the keys that it bound before the fault, and
nothing more. -/
theorem eventsOf_take (hi : is[index]? = some i) (h : ¬ Faultless labels options.strict i) :
    eventsOf labels options (is.take (index + 1)) = eventsOf labels options (is.take index)
      ++ .lowering index i :: ofBindings
        ((bindingsOf labels options.strict (is.take index)).added
          (bindingsOf labels options.strict (is.take (index + 1)))) := by
  obtain ⟨hlt, rfl⟩ := List.getElem?_eq_some_iff.1 hi
  have hlength : (is.take index).length = index := List.length_take_of_le (Nat.le_of_lt hlt)
  obtain ⟨closing, hevents, -, hnil⟩ := events_lower labels options
    (bindingsOf labels options.strict (is.take index)) index is[index]
  rw [hnil h, List.append_nil, bindings_lower] at hevents
  rw [← List.take_append_getElem hlt, eventsOf_concat, hlength, hevents, bindingsOf_concat]

end Lowering

namespace Program

open Generator Lowering

/-- A run that fails stops behind the events of the instruction that failed. -/
theorem generationEvents_stages (options : Options) (stream : List Instruction) : ∃ is last,
    generationEvents options stream
        = discoveryEvents stream ++ (eventsOf (.ofStream stream) options is ++ last)
      ∧ (∀ e ∈ last, e.kind.stage = .summary)
      ∧ match generate options stream with
        | .ok p => is = stream
          ∧ last = [.generated p.lines.length stream.length p.bindings.size p.labels.size]
          ∧ p.bindings = bindingsOf (.ofStream stream) options.strict stream
        | .error error => ∃ index i, error.index? = some index ∧ stream[index]? = some i
          ∧ ¬ Faultless (.ofStream stream) options.strict i
          ∧ is = stream.take (index + 1) ∧ last = [] := by
  rcases run_cases options stream with ⟨-, g, hrun, hevents⟩ | ⟨k, i, f, hfirst, g, hrun, hevents⟩
  · refine ⟨stream, [summary (layout options stream)], ?_, fun e he => ?_, ?_⟩
    · rw [generationEvents, hrun, ← List.append_assoc]
      exact hevents
    · rw [List.mem_singleton.1 he]
      rfl
    · rw [generate, hrun]
      exact ⟨rfl, by rw [summary, length_spans_layout], rfl⟩
  · refine ⟨stream.take (k + 1), [], ?_, fun e he => absurd he List.not_mem_nil, ?_⟩
    · rw [generationEvents, hrun, List.append_nil]
      exact hevents
    · rw [generate, hrun]
      exact ⟨k, i, f.index?_error k i.opcode, hfirst.getElem?, hfirst.not_faultless, rfl, rfl⟩

end Program

namespace Compilation

open Generator Lowering

variable {labels : Labels} {options : Options} {stream is : List Instruction}
  {entries : List Entry} {last : List Event}

/-- The events of a kind are those in its stage. -/
theorem only_stages (entries : List Entry) (stream is : List Instruction) (labels : Labels)
    (options : Options) (hlast : ∀ e ∈ last, e.kind.stage = .summary) (k : Event.Kind) :
    only k (entries.map Entry.event
        ++ (discoveryEvents stream ++ (eventsOf labels options is ++ last)))
      = match k.stage with
        | .loading => only k (entries.map Entry.event)
        | .discovery => only k (discoveryEvents stream)
        | .lowering => only k (eventsOf labels options is)
        | .summary => only k last := by
  have hloading : k.stage ≠ .loading → only k (entries.map Entry.event) = [] :=
    only_of_stage_ne fun e => Entry.stage_of_mem
  have hdiscovery : k.stage ≠ .discovery → only k (discoveryEvents stream) = [] :=
    only_of_stage_ne fun e => stage_discovery
  have hlowering : k.stage ≠ .lowering → only k (eventsOf labels options is) = [] :=
    only_of_stage_ne fun e => stage_eventsOf
  have hsummary : k.stage ≠ .summary → only k last = [] := only_of_stage_ne hlast
  rw [only_append, only_append, only_append]
  cases hk : k.stage <;> simp [hk, hloading, hdiscovery, hlowering, hsummary]

/-- Only the summary is at the level of information. -/
theorem level_ne_info {e : Event} (h : e ∈ entries.map Entry.event
    ++ (discoveryEvents stream ++ eventsOf labels options is)) : e.level ≠ .info := by
  rw [ne_eq, Event.level_eq_info_iff]
  rcases List.mem_append.1 h with h | h
  · simp [Entry.stage_of_mem h]
  · rcases List.mem_append.1 h with h | h
    · simp [stage_discovery h]
    · simp [stage_eventsOf h]

/-- The log of a text tells the diagnostics of its report, its instructions, their targets and
those past the end. If it has a program, each instruction was lowered once, the bindings are those
of the program, and its counts come last, as the only record at its level. If an instruction fails,
nothing comes behind that instruction and the keys that it bound before. -/
theorem log_tells (options : Options) (filename text : String) :
    let report := Report.ofText filename text
    let stream := report.instructions
    let dangling := (Labels.ofStream stream).dangling
    let log := log options filename text
    let lowering (k : Nat) (i : Instruction) : Level × String :=
      (.debug, "#" ++ toString k ++ ": lowering " ++ i.text)
    let bind : Key × Assembly.Register → Level × String :=
      fun (k, r) => (.trace, "bind " ++ k.text ++ " -> " ++ r.text)
    (log.filter fun e => e.kind.stage = .loading ∧ e.level = .warn).map record
      = report.diagnostics.map (fun d => (.warn, d.location.text ++ ": " ++ d.message))
    ∧ (only .loaded log).map record
      = stream.mapIdx (fun k i => (.debug, "loaded #" ++ toString k ++ ": " ++ i.text))
    ∧ ((only .targets log).map record = stream.zipIdx.filterMap fun (i, k) =>
      i.jumpAddress?.map fun t =>
        (.debug, "#" ++ toString k ++ ": " ++ i.opcode.tag ++ " targets " ++ toString t))
    ∧ ((only .pastEnd log).map record = dangling.map (fun t =>
        (.warn, "jump target " ++ toString t ++ " is past the end of the stream ("
          ++ toString stream.length ++ " instructions)"))
      ∧ dangling.Pairwise (· < ·))
    ∧ match Program.generate options stream with
      | .ok p => (only .lowering log).map record = stream.mapIdx lowering
        ∧ (only .bound log).map record = p.bindings.toList.map bind
        ∧ ∃ front last, log = front ++ [last]
          ∧ last.record = (.info, "generated " ++ toString p.lines.length ++ " lines from "
            ++ toString stream.length ++ " instructions (" ++ toString p.bindings.size
            ++ " registers, " ++ toString p.labels.size ++ " labels)")
          ∧ ∀ e ∈ front, e.level ≠ .info
      | .error error => ∃ index i, error.index? = some index ∧ stream[index]? = some i
        ∧ (only .lowering log).map record = (stream.take (index + 1)).mapIdx lowering
        ∧ (let table := (before options stream index).bindings
          let left := (before options stream (index + 1)).bindings
          (only .bound log).map record = left.toList.map bind
          ∧ ∃ front own, log = front ++ own
            ∧ own.map record = lowering index i :: (table.added left).map bind)
        ∧ ∀ e ∈ log, e.level ≠ .info := by
  intro report stream dangling log lowering bind
  obtain ⟨is, last, hgeneration, hlast, hend⟩ := Program.generationEvents_stages options stream
  have hlog : log = report.entries.map Entry.event ++ (discoveryEvents stream
      ++ (eventsOf (.ofStream stream) options is ++ last)) := congrArg _ hgeneration
  have hrecord (k : Event.Kind) := congrArg (List.map record)
    (only_stages report.entries stream is (.ofStream stream) options hlast k)
  rw [← hlog] at hrecord
  have hwarn : (log.filter fun e => e.kind.stage = .loading ∧ e.level = .warn)
      = only .diagnosed log :=
    List.filter_congr fun e _ => by simp only [Event.loading_warn_iff]
  refine ⟨?_, (hrecord .loaded).trans (Report.record_loaded filename text),
    (hrecord .targets).trans (record_targets stream),
    ⟨(hrecord .pastEnd).trans (record_pastEnd stream), (Labels.ofStream stream).ascending.filter _⟩,
    ?_⟩
  · rw [hwarn]
    exact (hrecord .diagnosed).trans (Entry.record_diagnosed report.entries)
  have hlowering := (hrecord .lowering).trans (record_lowering (.ofStream stream) options is)
  have hbound := (hrecord .bound).trans (record_bound (.ofStream stream) options is)
  rcases hg : Program.generate options stream with error | p
  · rw [hg] at hend
    obtain ⟨index, i, hindex, hi, hfaulty, rfl, rfl⟩ := hend
    obtain ⟨hlt, hget⟩ := List.getElem?_eq_some_iff.1 hi
    have htable := (tried_before options (Nat.le_of_lt hlt)).bindings_eq
    have hleft := (tried_before options (Nat.succ_le_of_lt hlt)).bindings_eq
    refine ⟨index, i, hindex, hi, hlowering, ⟨?_, ?_⟩, fun e he => ?_⟩
    · rw [hleft]
      exact hbound
    · refine ⟨report.entries.map Entry.event ++ (discoveryEvents stream
        ++ eventsOf (.ofStream stream) options (stream.take index)),
        .lowering index i :: ofBindings _, ?_, congrArg (lowering index i :: ·)
          (map_record_ofBindings _)⟩
      rw [hlog, eventsOf_take hi hfaulty, htable, hleft, List.append_nil, List.append_assoc,
        List.append_assoc]
    · rw [hlog, List.append_nil] at he
      exact level_ne_info he
  · rw [hg] at hend
    obtain ⟨rfl, rfl, hbindings⟩ := hend
    refine ⟨hlowering, ?_, report.entries.map Entry.event ++ (discoveryEvents stream
      ++ eventsOf (.ofStream stream) options stream),
      .generated p.lines.length stream.length p.bindings.size p.labels.size, ?_, rfl,
      fun e => level_ne_info⟩
    · rw [hbindings]
      exact hbound
    · rw [hlog, List.append_assoc, List.append_assoc]

/-- A conditional jump past the end, with an operand too many. -/
def passingText : String := "0\t(JPF, a, 2, , 7)\n1\t(PRINT, #1, , )\n"

/-- The second instruction fails at its second slot. The third is never lowered. -/
def failingText : String := "0\t(JP, 1, , )\n1\t(ADD, a, , b)\n2\t(PRINT, #1, , )\n"

theorem log_tells_passing_failing :
    (∃ front last, log ⟨false, "_start"⟩ "in" passingText = front ++ [last]
      ∧ last.record = (.info, "generated 35 lines from 2 instructions (3 registers, 1 labels)"))
    ∧ ((log ⟨false, "_start"⟩ "in" passingText).filter fun e =>
        e.kind.stage = .loading ∧ e.level = .warn).map record
      = [(.warn, "in:1: ignoring 1 operand(s) past a3")]
    ∧ (only .pastEnd (log ⟨false, "_start"⟩ "in" passingText)).map record
      = [(.warn, "jump target 2 is past the end of the stream (2 instructions)")]
    ∧ (only .lowering (log ⟨false, "_start"⟩ "in" passingText)).map record
      = [(.debug, "#0: lowering (JPF, a, 2, )"), (.debug, "#1: lowering (PRINT, #1, , )")]
    ∧ (∃ front own, log ⟨true, "_start"⟩ "in" failingText = front ++ own ∧ own.map record
      = [(.debug, "#1: lowering (ADD, a, , b)"), (.trace, "bind <tmp1> -> x0"),
        (.trace, "bind <tmp2> -> x1"), (.trace, "bind b -> x2"), (.trace, "bind a -> x3")])
    ∧ (∀ e ∈ log ⟨true, "_start"⟩ "in" failingText, e.level ≠ .info)
    ∧ (only .loaded (log ⟨true, "_start"⟩ "in" failingText)).map record
      = [(.debug, "loaded #0: (JP, 1, , )"), (.debug, "loaded #1: (ADD, a, , b)"),
        (.debug, "loaded #2: (PRINT, #1, , )")]
    ∧ (only .targets (log ⟨true, "_start"⟩ "in" failingText)).map record
      = [(.debug, "#0: JP targets 1")] := by
  have hpassing : Program.generate ⟨false, "_start"⟩ (Report.ofText "in" passingText).instructions
      = .ok (.layout ⟨false, "_start"⟩ (Report.ofText "in" passingText).instructions) :=
    Program.generate_of_faultless (by decide)
  have hfailing : Program.generate ⟨true, "_start"⟩ (Report.ofText "in" failingText).instructions
      = .error (.missingOperand 1 .add 2) := by
    rfl
  have h := log_tells ⟨false, "_start"⟩ "in" passingText
  have h' := log_tells ⟨true, "_start"⟩ "in" failingText
  dsimp only at h h'
  rw [hpassing] at h
  rw [hfailing] at h'
  obtain ⟨hdiagnosed, -, -, ⟨hpast, -⟩, hlowering, -, front, last, hlast, hrecord, -⟩ := h
  obtain ⟨-, hloaded, htargets, -, index, i, hindex, hi, -, ⟨-, front', own, hlog, hown⟩, hinfo⟩ :=
    h'
  cases hindex
  cases hi
  exact ⟨⟨front, last, hlast, hrecord.trans (by decide +kernel)⟩,
    hdiagnosed.trans (by decide +kernel), hpast.trans (by decide +kernel),
    hlowering.trans (by decide +kernel), ⟨front', own, hlog, hown.trans (by decide +kernel)⟩, hinfo,
    hloaded.trans (by decide +kernel), htargets.trans (by decide +kernel)⟩

end Compilation

end ThreeAddress
