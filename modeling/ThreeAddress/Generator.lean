import ThreeAddress.Lowering
import ThreeAddress.Program

/-!
# Generating a program

A generator goes through its phases in one order: labels, then each instruction of the stream, then
the print routine. A call that is out of order is refused and changes nothing. An instruction that
fails ends its phase all the same: its label line and its bindings stay, but it has no span.
-/

namespace ThreeAddress

inductive Phase where
  | unstarted
  | labelsDiscovered
  /-- The instruction with this index was the last one tried. -/
  | emitting (index : Nat)
  | trailerEmitted
  | done
  deriving DecidableEq, Repr

namespace Phase

def text : Phase → String
  | .unstarted => "Unstarted"
  | .labelsDiscovered => "LabelsDiscovered"
  | .emitting index => "Emitting(" ++ toString index ++ ")"
  | .trailerEmitted => "TrailerEmitted"
  | .done => "Done"

/-- Whether a generator over `n` instructions may go from one phase to the other. -/
def precedes (n : Nat) : Phase → Phase → Bool
  | .unstarted, .labelsDiscovered => true
  | .labelsDiscovered, .emitting j => j == 0 && 0 < n
  | .labelsDiscovered, .trailerEmitted => n == 0
  | .emitting i, .emitting j => j == i + 1 && j < n
  | .emitting i, .trailerEmitted => i + 1 == n
  | .trailerEmitted, .done => true
  | _, _ => false

theorem lt_of_precedes_emitting {n j : Nat} {p : Phase} (h : p.precedes n (.emitting j)) :
    j < n := by
  cases p <;> simp [precedes] at h <;> omega

/-- The index of the instruction to try next. -/
def nextIndex : Phase → Nat
  | .emitting index => index + 1
  | _ => 0

end Phase

structure Generator where
  stream : List Instruction
  options : Options
  phase : Phase
  bindings : Bindings
  labels : Labels
  lines : List Assembly.Line
  spans : List Span
  events : List Event

/-- A step of a generator, which keeps what a failure leaves behind. -/
abbrev Generation := EStateM CompileError Generator

namespace Generator

def start (options : Options) (stream : List Instruction) : Generator :=
  ⟨stream, options, .unstarted, .empty, .empty, [], [], []⟩

def violation (g : Generator) (next : Phase) : CompileError :=
  .phaseViolation g.phase.text next.text

/-- What label discovery reports: the targets as they come, then those past the end. -/
def discoveryEvents (stream : List Instruction) : List Event :=
  let labels := Labels.ofStream stream
  (stream.zipIdx.filterMap fun (i, index) => i.jumpAddress?.map (.targets index i.opcode)) ++
    labels.dangling.map (.pastEnd · stream.length) ++ [.discovered labels.size]

def discoverLabels : Generation Unit := fun g =>
  if g.phase.precedes g.stream.length .labelsDiscovered then
    .ok () { g with
      phase := .labelsDiscovered
      labels := .ofStream g.stream
      lines := g.lines ++ Assembly.header g.options.entry
      events := g.events ++ discoveryEvents g.stream }
  else .error (g.violation .labelsDiscovered) g

/-- The label line that stands before an instruction. -/
def labelLines (labels : Labels) (index : Nat) : List Assembly.Line :=
  (labels.declared? index).toList.map .label

def emitNext : Generation Unit := fun g =>
  let index := g.phase.nextIndex
  if h : g.phase.precedes g.stream.length (.emitting index) then
    have := Phase.lt_of_precedes_emitting h
    let lowered := g.stream[index].lower g.labels g.options g.bindings index
    let opened := { g with
      phase := .emitting index
      bindings := lowered.bindings
      lines := g.lines ++ labelLines g.labels index
      events := g.events ++ lowered.events }
    match lowered.result with
    | .error e => .error e opened
    | .ok body =>
      let lines := opened.lines ++ body
      .ok () { opened with lines, spans := g.spans ++ [⟨g.lines.length, lines.length⟩] }
  else .error (g.violation (.emitting index)) g

def emitTrailer : Generation Unit := fun g =>
  if g.phase.precedes g.stream.length .trailerEmitted then
    .ok () { g with
      phase := .trailerEmitted
      lines := g.lines ++ Assembly.PrintInt.routine }
  else .error (g.violation .trailerEmitted) g

def program (g : Generator) : Program :=
  ⟨g.lines, g.bindings, g.labels, g.spans⟩

def finish : Generation Program := fun g =>
  if g.phase.precedes g.stream.length .done then .ok g.program { g with phase := .done }
  else .error (g.violation .done) g

def summary (p : Program) : Event :=
  .generated p.lines.length p.spans.length p.bindings.size p.labels.size

/-- Every phase in order. -/
def run : Generation Program := do
  discoverLabels
  (← get).stream.forM fun _ => emitNext
  emitTrailer
  let p ← finish
  modify fun g => { g with events := g.events ++ [summary p] }
  return p

end Generator

namespace Program

def generate (options : Options) (stream : List Instruction) : Except CompileError Program :=
  match Generator.run (.start options stream) with
  | .ok p _ => .ok p
  | .error e _ => .error e

/-- What a generation reports, whether it succeeds or fails. -/
def generationEvents (options : Options) (stream : List Instruction) : List Event :=
  match Generator.run (.start options stream) with
  | .ok _ g => g.events
  | .error _ g => g.events

end Program

end ThreeAddress
