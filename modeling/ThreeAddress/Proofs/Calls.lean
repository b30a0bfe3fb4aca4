import ThreeAddress.Proofs.Layout

/-!
# Sequences of calls

A generator refuses a call that is out of order and stays as it is. Any other call takes it on by
one place of the `schedule`, whether the instruction can be lowered or not (`call_cases`). So the
calls that it has taken are always a beginning of the schedule (`take_position`), and what it holds
is what they alone lead to (`afterAll_taken`). When the schedule is through, `finish` gives a
program. Without a failure that is the program of the whole stream (`calls_agree`); after a failure
it is one in which the faulty instructions have no block (`failure_finishes`).
-/

namespace ThreeAddress

/-- A call that takes a generator from one phase to the next. -/
inductive Call where
  | discoverLabels
  | emitNext
  | emitTrailer
  deriving DecidableEq, Repr

namespace Call

def make : Call → Generation Unit
  | .discoverLabels => Generator.discoverLabels
  | .emitNext => Generator.emitNext
  | .emitTrailer => Generator.emitTrailer

/-- The phase that a call asks for. -/
def requested (p : Phase) : Call → Phase
  | .discoverLabels => .labelsDiscovered
  | .emitNext => .emitting p.nextIndex
  | .emitTrailer => .trailerEmitted

/-- The calls of a whole pass over `n` instructions. -/
def schedule (n : Nat) : List Call :=
  .discoverLabels :: (List.replicate n .emitNext ++ [.emitTrailer])

theorem length_schedule (n : Nat) : (schedule n).length = n + 2 := by
  simp [schedule]

theorem getElem?_schedule (n k : Nat) : (schedule n)[k]? =
    if k = 0 then some .discoverLabels
    else if k ≤ n then some .emitNext
    else if k = n + 1 then some .emitTrailer else none := by
  rcases k with _ | k
  · rfl
  rw [schedule, List.getElem?_cons_succ, List.getElem?_append, List.getElem?_replicate,
    List.length_replicate]
  grind

end Call

abbrev Answer := Except CompileError Unit

namespace Answer

def accepted : Answer → Bool
  | .ok _ => true
  | .error _ => false

/-- The call came out of order. -/
def refused : Answer → Bool
  | .error (.phaseViolation _ _) => true
  | _ => false

/-- The instruction could not be lowered. -/
def failed : Answer → Bool
  | .ok _ => false
  | .error e => e.index?.isSome

theorem not_refused_of_failed {a : Answer} (h : a.failed = true) : a.refused = false := by
  rcases a with (_ | _ | _ | _ | _) | _ <;> first | rfl | cases h

theorem not_refused {a : Answer} (h : a = .ok () ∨ a.failed = true) : a.refused = false := by
  rcases h with rfl | h
  · rfl
  · exact not_refused_of_failed h

end Answer

namespace Phase

open Call (schedule getElem?_schedule)

/-- How many calls of the schedule lie behind. -/
def position (n : Nat) : Phase → Nat
  | .unstarted => 0
  | .labelsDiscovered => 1
  | .emitting index => index + 2
  | .trailerEmitted => n + 2
  | .done => n + 3

/-- The phase of a generator over `n` instructions before it finishes. -/
def Open (n : Nat) : Phase → Prop
  | .emitting index => index < n
  | .done => False
  | _ => True

variable {n : Nat} {p : Phase}

/-- A call is in order when it is the next of the schedule. -/
theorem precedes_requested (h : p.Open n) (c : Call) : p.precedes n (c.requested p) = true
    ↔ (schedule n)[p.position n]? = some c := by
  rw [getElem?_schedule]
  cases p with
  | unstarted => cases c <;> simp [precedes, Call.requested, position]
  | labelsDiscovered =>
    cases c <;> simp [precedes, Call.requested, nextIndex, position] <;> grind
  | emitting index =>
    have hlt : index < n := h
    cases c <;> simp [precedes, Call.requested, nextIndex, position] <;> grind
  | trailerEmitted => cases c <;> simp [precedes, Call.requested, position]
  | done => exact h.elim

/-- The phase that the next call of the schedule asks for is one place further on. -/
theorem open_requested (h : p.Open n) {c : Call} (hc : (schedule n)[p.position n]? = some c) :
    (c.requested p).Open n ∧ (c.requested p).position n = p.position n + 1 := by
  rw [getElem?_schedule] at hc
  cases p with
  | unstarted =>
    cases hc
    exact ⟨trivial, rfl⟩
  | labelsDiscovered =>
    cases c <;> simp [Call.requested, nextIndex, position, Open] at hc ⊢ <;> grind
  | emitting index =>
    have hlt : index < n := h
    cases c <;> simp [Call.requested, nextIndex, position, Open] at hc ⊢ <;> grind
  | trailerEmitted =>
    simp only [position] at hc
    grind
  | done => exact h.elim

theorem eq_trailerEmitted_iff (h : p.Open n) : p = .trailerEmitted ↔ n + 2 ≤ p.position n := by
  cases p with
  | emitting index =>
    have hlt : index < n := h
    simp only [reduceCtorEq, position, false_iff]
    omega
  | unstarted | labelsDiscovered | trailerEmitted => simp [position]
  | done => exact h.elim

end Phase

namespace Generator

open Lowering
open Call (schedule)

/-- What a call answers. -/
def answer (g : Generator) (c : Call) : Answer :=
  match c.make g with
  | .ok _ _ => .ok ()
  | .error e _ => .error e

/-- The generator that a call leaves. -/
def after (g : Generator) (c : Call) : Generator :=
  match c.make g with
  | .ok _ left => left
  | .error _ left => left

/-- The generator that several calls leave. -/
def afterAll (g : Generator) (cs : List Call) : Generator :=
  cs.foldl after g

/-- Calls with their answers. -/
def answers (g : Generator) : List Call → List (Call × Answer)
  | [] => []
  | c :: cs => (c, g.answer c) :: (g.after c).answers cs

variable {options : Options} {stream : List Instruction} {g left : Generator} {c : Call}

theorem answer_of_ok (h : c.make g = .ok () left) : g.answer c = .ok () ∧ g.after c = left := by
  simp [answer, after, h]

theorem answer_of_error {e : CompileError} (h : c.make g = .error e left) :
    g.answer c = .error e ∧ g.after c = left := by
  simp [answer, after, h]

theorem lower_result (labels : Labels) (options : Options) (b : Bindings) (index : Nat)
    (i : Instruction) : (∃ ls, (i.lower labels options b index).result = .ok ls)
      ∨ ∃ f : Fault, (i.lower labels options b index).result = .error (f.error index i.opcode) := by
  rcases hf : fault? (touches labels options.strict i) with _ | f
  · exact .inl ⟨_, by simp only [Instruction.lower, hf]; rfl⟩
  · exact .inr ⟨f, by simp only [Instruction.lower, hf]⟩

/-- A call is refused and changes nothing, or it takes the generator to the phase that it asks for,
whether it then fails or not. -/
theorem call_cases (g : Generator) (c : Call) :
    (g.phase.precedes g.stream.length (c.requested g.phase) = false
        ∧ g.answer c = .error (g.violation (c.requested g.phase)) ∧ g.after c = g)
      ∨ (g.phase.precedes g.stream.length (c.requested g.phase) = true
        ∧ (g.answer c = .ok () ∨ (g.answer c).failed = true)
        ∧ (g.after c).phase = c.requested g.phase ∧ (g.after c).stream = g.stream) := by
  rcases hp : g.phase.precedes g.stream.length (c.requested g.phase) with _ | _
  · have hmake : c.make g = .error (g.violation (c.requested g.phase)) g := by
      cases c <;> simp_all [Call.make, Call.requested, discoverLabels, emitNext, emitTrailer]
    exact .inl ⟨rfl, answer_of_error hmake⟩
  · refine .inr ⟨rfl, ?_⟩
    cases c with
    | discoverLabels | emitTrailer =>
      simp only [Call.requested] at hp
      simp [answer, after, Call.make, discoverLabels, emitTrailer, hp, Call.requested]
    | emitNext =>
      simp only [Call.requested] at hp
      have hlt := Phase.lt_of_precedes_emitting hp
      rcases lower_result g.labels g.options g.bindings g.phase.nextIndex
        g.stream[g.phase.nextIndex] with ⟨ls, hr⟩ | ⟨f, hr⟩
      · simp [answer, after, Call.make, emitNext, hp, hr, Call.requested]
      · simp [answer, after, Call.make, emitNext, hp, hr, Call.requested, Answer.failed,
          Fault.index?_error]

theorem after_of_refused (h : (g.answer c).refused = true) : g.after c = g := by
  rcases call_cases g c with ⟨-, -, hafter⟩ | ⟨-, hanswer, -⟩
  · exact hafter
  · rw [Answer.not_refused hanswer] at h
    cases h

/-- The calls that were not refused. -/
def taken (as : List (Call × Answer)) : List Call :=
  (as.filter fun a => !a.2.refused).map Prod.fst

/-- The calls that were answered with success. -/
def accepted (as : List (Call × Answer)) : List Call :=
  (as.filter fun a => a.2.accepted).map Prod.fst

theorem answers_append (g : Generator) (cs ds : List Call) :
    g.answers (cs ++ ds) = g.answers cs ++ (g.afterAll cs).answers ds := by
  induction cs generalizing g with
  | nil => rfl
  | cons c cs ih => exact congrArg _ (ih (g.after c))

theorem afterAll_append (g : Generator) (cs ds : List Call) :
    g.afterAll (cs ++ ds) = (g.afterAll cs).afterAll ds :=
  List.foldl_append

theorem exists_of_mem_answers {a : Call × Answer} {cs : List Call} (h : a ∈ g.answers cs) :
    ∃ before : Generator, a.2 = before.answer a.1 := by
  induction cs generalizing g with
  | nil => cases h
  | cons c cs ih =>
    rcases List.mem_cons.1 h with rfl | h
    · exact ⟨g, rfl⟩
    · exact ih h

theorem taken_cons_of_refused (h : (g.answer c).refused = true) (cs : List Call) :
    taken (g.answers (c :: cs)) = taken (g.answers cs) := by
  simp [taken, answers, h, after_of_refused h]

theorem taken_cons (h : (g.answer c).refused = false) (cs : List Call) :
    taken (g.answers (c :: cs)) = c :: taken ((g.after c).answers cs) := by
  simp [taken, answers, h]

/-- Calls that are refused might as well not be made. -/
theorem afterAll_taken (g : Generator) (cs : List Call) :
    g.afterAll (taken (g.answers cs)) = g.afterAll cs
      ∧ g.answers (taken (g.answers cs)) = (g.answers cs).filter fun a => !a.2.refused := by
  induction cs generalizing g with
  | nil => exact ⟨rfl, rfl⟩
  | cons c cs ih =>
    obtain ⟨hafter, hanswers⟩ := ih (g.after c)
    rcases hr : (g.answer c).refused with _ | _
    · rw [taken_cons hr]
      refine ⟨hafter, ?_⟩
      rw [answers, answers, hanswers, List.filter_cons_of_pos (by simp [hr])]
    · rw [after_of_refused hr] at hafter hanswers
      rw [taken_cons_of_refused hr, hafter, afterAll, afterAll, List.foldl_cons, answers,
        List.filter_cons_of_neg (by simp [hr]), after_of_refused hr]
      exact ⟨rfl, hanswers⟩

/-- What a generator has taken is always a beginning of the schedule. -/
theorem take_position (g : Generator) (cs : List Call) (h : g.phase.Open g.stream.length) :
    (g.afterAll cs).phase.Open g.stream.length
      ∧ (schedule g.stream.length).take (g.phase.position g.stream.length) ++ taken (g.answers cs)
        = (schedule g.stream.length).take ((g.afterAll cs).phase.position g.stream.length) := by
  induction cs generalizing g with
  | nil => exact ⟨h, List.append_nil _⟩
  | cons c cs ih =>
    rcases call_cases g c with ⟨-, hanswer, hafter⟩ | ⟨hp, hanswer, hphase, hstream⟩
    · rw [taken_cons_of_refused (by rw [hanswer]; rfl), afterAll, List.foldl_cons, hafter]
      exact ih g h
    · have hnext := (Phase.precedes_requested h c).1 hp
      obtain ⟨hopen, hposition⟩ := Phase.open_requested h hnext
      have ih := ih (g.after c)
      rw [hstream, hphase] at ih
      obtain ⟨hopen', htake⟩ := ih hopen
      rw [hposition, List.take_add_one, hnext, List.append_assoc] at htake
      rw [taken_cons (Answer.not_refused hanswer)]
      exact ⟨hopen', htake⟩

theorem finish_isOk_iff : (∃ p left, finish g = .ok p left) ↔ g.phase = .trailerEmitted := by
  refine ⟨fun ⟨p, left, h⟩ => ?_, fun h => ⟨_, _, finish_of_trailer h⟩⟩
  simp only [finish] at h
  split at h
  · next hp => cases hphase : g.phase <;> simp [hphase, Phase.precedes] at hp ⊢
  · cases h

/-- So many tries, and what each of them answers. -/
theorem Tried.emits {k : Nat} (h : Tried options stream k g) (m : Nat)
    (hm : k + m ≤ stream.length) :
    Tried options stream (k + m) (g.afterAll (List.replicate m .emitNext))
      ∧ g.answers (List.replicate m .emitNext) = ((stream.drop k).take m).mapIdx fun d i =>
        (.emitNext, verdict (.ofStream stream) options.strict (k + d) i) := by
  induction m generalizing k g with
  | zero => exact ⟨h, by simp [answers]⟩
  | succ m ih =>
    have hk : k < stream.length := by omega
    obtain ⟨left, hleft, hemit⟩ := h.emitNext_eq hk
    have hcall : g.answer .emitNext = verdict (.ofStream stream) options.strict k stream[k]
        ∧ g.after .emitNext = left := by
      rcases hv : verdict (.ofStream stream) options.strict k stream[k] with e | u <;>
        rw [hv] at hemit
      · exact answer_of_error hemit
      · exact answer_of_ok hemit
    obtain ⟨htried, hanswers⟩ := ih hleft (by omega)
    rw [List.replicate_succ, answers, afterAll, List.foldl_cons, hcall.1, hcall.2, hanswers,
      List.drop_eq_getElem_cons hk, List.take_succ_cons, List.mapIdx_cons]
    rw [Nat.add_right_comm, Nat.add_assoc] at htried
    refine ⟨htried, ?_⟩
    simp [Nat.add_comm, Nat.add_left_comm]

theorem verdict_failed {labels : Labels} {strict : Bool} {index : Nat} {i : Instruction} :
    Answer.failed (verdict labels strict index i) = true ↔ ¬ Faultless labels strict i := by
  rcases hf : fault? (touches labels strict i) with _ | f
  · simp [verdict, hf, Faultless, Answer.failed]
  · simp [verdict, hf, Faultless, Answer.failed, Fault.index?_error]

section Start

variable (options stream)

theorem taken_start (cs : List Call) :
    ((start options stream).afterAll cs).phase.Open stream.length
      ∧ taken ((start options stream).answers cs) = (schedule stream.length).take
        (((start options stream).afterAll cs).phase.position stream.length) :=
  take_position (start options stream) cs trivial

/-- `finish` gives a program when the schedule is through. -/
theorem finish_iff_taken (cs : List Call) :
    (∃ p left, finish ((start options stream).afterAll cs) = .ok p left)
      ↔ taken ((start options stream).answers cs) = schedule stream.length := by
  obtain ⟨hopen, htake⟩ := taken_start options stream cs
  have hlen := Call.length_schedule stream.length
  rw [finish_isOk_iff, Phase.eq_trailerEmitted_iff hopen, htake]
  refine ⟨fun h => List.take_of_length_le (by omega), fun h => ?_⟩
  have := congrArg List.length h
  rw [List.length_take] at this
  omega

/-- The whole schedule tries every instruction. -/
theorem afterAll_schedule :
    ((start options stream).afterAll (schedule stream.length)).phase = .trailerEmitted
      ∧ ((start options stream).afterAll (schedule stream.length)).program
        = .residue options stream
      ∧ (start options stream).answers (schedule stream.length) = (.discoverLabels, .ok ())
        :: ((stream.mapIdx fun index i =>
          (.emitNext, verdict (.ofStream stream) options.strict index i))
            ++ [(.emitTrailer, .ok ())]) := by
  obtain ⟨g₀, h₀, hg₀⟩ := discoverLabels_start options stream
  obtain ⟨hdiscover, hafter⟩ := answer_of_ok (c := .discoverLabels) h₀
  obtain ⟨htried, hanswers⟩ := hg₀.emits stream.length (by omega)
  rw [Nat.zero_add] at htried
  obtain ⟨left, htrailer, -, hphase, hprogram⟩ := htried.emitTrailer_ok
  obtain ⟨hlast, hleft⟩ := answer_of_ok (c := .emitTrailer) htrailer
  have hall : (start options stream).afterAll (schedule stream.length) = left := by
    rw [schedule, afterAll, List.foldl_cons, hafter, List.foldl_append]
    exact hleft
  refine ⟨hall ▸ hphase, hall ▸ hprogram, ?_⟩
  rw [schedule, answers, hdiscover, hafter, answers_append, hanswers, answers, hlast]
  simp [answers]

theorem exists_take_schedule (cs : List Call) : ∃ position,
    taken ((start options stream).answers cs) = (schedule stream.length).take position :=
  ⟨_, (taken_start options stream cs).2⟩

/-- However a generator was called, the rest of the schedule takes it to a program. -/
theorem exists_finish (cs : List Call) :
    ∃ more p left, finish ((start options stream).afterAll (cs ++ more)) = .ok p left := by
  obtain ⟨position, htake⟩ := exists_take_schedule options stream cs
  have hsame := (afterAll_taken (start options stream) cs).1
  rw [htake] at hsame
  refine ⟨(schedule stream.length).drop position, finish_isOk_iff.2 ?_⟩
  rw [afterAll_append, ← hsame, ← afterAll_append, List.take_append_drop]
  exact (afterAll_schedule options stream).1

/-- What is answered and not refused is answered so in the schedule. -/
theorem mem_answers_schedule {cs : List Call} {a : Call × Answer}
    (ha : a ∈ (start options stream).answers cs) (hr : a.2.refused = false) :
    a ∈ (start options stream).answers (schedule stream.length) := by
  obtain ⟨position, htake⟩ := exists_take_schedule options stream cs
  have hmem : a ∈ (start options stream).answers (taken ((start options stream).answers cs)) := by
    rw [(afterAll_taken _ cs).2]
    exact List.mem_filter.2 ⟨ha, by simp [hr]⟩
  rw [htake] at hmem
  rw [← List.take_append_drop position (schedule stream.length), answers_append]
  exact List.mem_append_left _ hmem

/-- The schedule meets a failure if some instruction is faulty. -/
theorem exists_failed_iff : (∃ a ∈ (start options stream).answers (schedule stream.length),
      a.2.failed = true) ↔ ∃ i ∈ stream, ¬ Faultless (.ofStream stream) options.strict i := by
  rw [(afterAll_schedule options stream).2.2]
  refine ⟨fun ⟨a, ha, h⟩ => ?_, fun ⟨i, hi, h⟩ => ?_⟩
  · rcases List.mem_cons.1 ha with rfl | ha
    · cases h
    rcases List.mem_append.1 ha with ha | ha
    · obtain ⟨index, hindex, rfl⟩ := List.mem_mapIdx.1 ha
      exact ⟨_, List.getElem_mem hindex, verdict_failed.1 h⟩
    · rw [List.mem_singleton.1 ha] at h
      cases h
  · obtain ⟨index, hindex, rfl⟩ := List.mem_iff_getElem.1 hi
    refine ⟨(.emitNext, verdict (.ofStream stream) options.strict index stream[index]), ?_,
      verdict_failed.2 h⟩
    exact List.mem_cons_of_mem _ (List.mem_append_left _ (List.mem_mapIdx.2 ⟨index, hindex, rfl⟩))

variable {options} {stream} {cs : List Call} {p : Program}

/-- Whatever the calls, `finish` can only give the residue of the stream. -/
theorem eq_residue_of_finish (h : finish ((start options stream).afterAll cs) = .ok p left) :
    p = .residue options stream := by
  have htaken := (finish_iff_taken options stream cs).1 ⟨p, left, h⟩
  rw [← (afterAll_taken _ cs).1, htaken] at h
  obtain ⟨hphase, hprogram, -⟩ := afterAll_schedule options stream
  rw [finish_of_trailer hphase, hprogram] at h
  cases h
  rfl

theorem accepted_eq_taken (h : ∀ a ∈ g.answers cs, a.2.failed = false) :
    accepted (g.answers cs) = taken (g.answers cs) := by
  refine congrArg _ (List.filter_congr fun a ha => ?_)
  obtain ⟨before, hbefore⟩ := exists_of_mem_answers ha
  rcases call_cases before a.1 with ⟨-, hanswer, -⟩ | ⟨-, hok | hfailed, -⟩
  · rw [hbefore, hanswer]
    rfl
  · rw [hbefore, hok]
    rfl
  · rw [← hbefore, h a ha] at hfailed
    cases hfailed

/-- The calls of a generator and `generate` agree as long as no instruction fails: `finish` gives a
program exactly after the schedule, with refused calls anywhere in between, and that program is the
one of the whole stream. Of any generator, a refused call changes nothing, an instruction that is
tried is one of the stream, and `run` is refused once labels were discovered. -/
theorem calls_agree (h : ∀ a ∈ (start options stream).answers cs, a.2.failed = false) :
    ((∃ p left, finish ((start options stream).afterAll cs) = .ok p left)
      ↔ accepted ((start options stream).answers cs) = schedule stream.length)
    ∧ (∀ p left, finish ((start options stream).afterAll cs) = .ok p left
      → Program.generate options stream = .ok p)
    ∧ (∀ (g : Generator) (c : Call) (current requested : String),
      g.answer c = .error (.phaseViolation current requested) → g.after c = g)
    ∧ (∀ g : Generator, (g.answer .emitNext).refused = false
      → g.phase.nextIndex < g.stream.length
        ∧ (g.after .emitNext).phase = .emitting g.phase.nextIndex)
    ∧ (∀ g : Generator, g.phase ≠ .unstarted
      → run g = .error (.phaseViolation g.phase.text Phase.labelsDiscovered.text) g) := by
  refine ⟨?_, fun p left hp => ?_, fun g c current requested hc => ?_, fun g hg => ?_,
    fun g hg => ?_⟩
  · rw [finish_iff_taken, accepted_eq_taken h]
  · -- The calls taken are the whole schedule, which would have met any fault of the stream.
    have htaken := (finish_iff_taken options stream cs).1 ⟨p, left, hp⟩
    have hanswers := (afterAll_taken (start options stream) cs).2
    rw [htaken] at hanswers
    have hall : ∀ i ∈ stream, Faultless (.ofStream stream) options.strict i := by
      by_contra hno
      push Not at hno
      obtain ⟨a, ha, hfailed⟩ := (exists_failed_iff options stream).2 hno
      rw [hanswers] at ha
      rw [h a (List.mem_filter.1 ha).1] at hfailed
      cases hfailed
    rw [eq_residue_of_finish hp, Program.residue_eq_layout hall]
    exact Program.generate_of_faultless hall
  · exact after_of_refused (by rw [hc]; rfl)
  · rcases call_cases g .emitNext with ⟨-, hanswer, -⟩ | ⟨hp, -, hphase, -⟩
    · rw [hanswer] at hg
      cases hg
    · exact ⟨Phase.lt_of_precedes_emitting hp, hphase⟩
  · have hdiscover : discoverLabels g = .error (g.violation .labelsDiscovered) g := by
      have hp : g.phase.precedes g.stream.length .labelsDiscovered = false := by
        cases hphase : g.phase with
        | unstarted => exact absurd hphase hg
        | _ => rfl
      simp [discoverLabels, hp]
    rw [run_eq, Generation.bind_error hdiscover]
    rfl

def assignTwice : List Instruction :=
  [.ofTokens "ASSIGN" "#1" "a" "", .ofTokens "ASSIGN" "a" "@b" ""]

/-- The schedule of two instructions with a refused call between any two of its calls. -/
def trial : List Call :=
  [.emitNext, .discoverLabels, .emitTrailer, .emitNext, .discoverLabels, .emitNext, .emitNext,
    .emitTrailer, .emitTrailer]

theorem calls_agree_trial :
    (∀ a ∈ (start .default assignTwice).answers trial, a.2.failed = false)
    ∧ accepted ((start .default assignTwice).answers trial) = schedule assignTwice.length
    ∧ ∃ p left, finish ((start .default assignTwice).afterAll trial) = .ok p left
      ∧ Program.generate .default assignTwice = .ok p := by
  have h : ∀ a ∈ (start .default assignTwice).answers trial, a.2.failed = false := by decide
  have haccepted : accepted ((start .default assignTwice).answers trial)
      = schedule assignTwice.length := by decide
  obtain ⟨hfinish, hgenerate, -⟩ := calls_agree h
  obtain ⟨p, left, hp⟩ := hfinish.2 haccepted
  exact ⟨h, haccepted, p, left, hp, hgenerate p left hp⟩

/-- After a failure there is no program of the stream, but the calls can still be brought to an end,
and `finish` then gives a program: the blocks of the instructions without a fault, fewer than the
stream has instructions. -/
theorem failure_finishes (h : ∃ a ∈ (start options stream).answers cs, a.2.failed = true) :
    (∀ p, Program.generate options stream ≠ .ok p)
    ∧ (∃ more p left, finish ((start options stream).afterAll (cs ++ more)) = .ok p left)
    ∧ ∀ more p left, finish ((start options stream).afterAll (cs ++ more)) = .ok p left
      → p.spans.length < stream.length
        ∧ p.blocks = (stream.zipIdx.filter fun x =>
            Faultless (.ofStream stream) options.strict x.1).map fun x =>
              block p.bindings.register (.ofStream stream) x.2 x.1 := by
  obtain ⟨i, hi, hfaulty⟩ : ∃ i ∈ stream, ¬ Faultless (.ofStream stream) options.strict i := by
    obtain ⟨a, ha, hfailed⟩ := h
    exact (exists_failed_iff options stream).1 ⟨a, mem_answers_schedule options stream ha
      (Answer.not_refused_of_failed hfailed), hfailed⟩
  refine ⟨fun p hp => hfaulty ((Program.generate_eq_ok_iff.1 hp).1 i hi),
    exists_finish options stream cs, fun more p left hp => ?_⟩
  have hblocks := Program.blocks_residue options stream
  rw [← eq_residue_of_finish hp] at hblocks
  refine ⟨?_, hblocks⟩
  have hlen := congrArg List.length hblocks
  rw [Program.blocks, List.length_map, List.length_map] at hlen
  obtain ⟨index, hindex⟩ := List.mem_iff_getElem?.1 hi
  rw [hlen, ← List.length_zipIdx (l := stream) (i := 0),
    List.length_filter_lt_length_iff_exists]
  exact ⟨(i, index), List.mk_mem_zipIdx_iff_getElem?.2 hindex, by simpa using hfaulty⟩

/-- The jump leads past the end. -/
def printThenJump : List Instruction :=
  [.ofTokens "PRINT" "#1" "" "", .ofTokens "JPF" "c" "12" ""]

/-- The calls up to the one that fails. -/
def upToJump : List Call := [.discoverLabels, .emitNext, .emitNext]

theorem failure_finishes_printThenJump :
    (∃ a ∈ (start .default printThenJump).answers upToJump, a.2.failed = true)
    ∧ ∃ more p left,
      finish ((start .default printThenJump).afterAll (upToJump ++ more)) = .ok p left
        ∧ p.spans.length < printThenJump.length := by
  have h : ∃ a ∈ (start .default printThenJump).answers upToJump, a.2.failed = true := by decide
  obtain ⟨-, ⟨more, p, left, hp⟩, hless⟩ := failure_finishes h
  exact ⟨h, more, p, left, hp, (hless more p left hp).1⟩

theorem failure_not_final :
    ((start .default printThenJump).answers upToJump)[2]?
      = some (.emitNext, .error (.unresolvedTarget 1 (.symbol "12")))
    ∧ ∃ p left,
      finish ((start .default printThenJump).afterAll (upToJump ++ [.emitTrailer])) = .ok p left
        ∧ p.spans.length = 1 ∧ printThenJump.length = 2 :=
  ⟨by decide, _, _, rfl, by decide, rfl⟩

end Start

end Generator

end ThreeAddress
