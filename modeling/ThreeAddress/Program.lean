import ThreeAddress.Assembly.PrintInt
import ThreeAddress.Bindings
import ThreeAddress.Labels

/-!
# Compiled programs

The lines of a program, the tables it was made with, and for each instruction of the stream the span
of lines that it gave.
-/

namespace ThreeAddress

/-- Lines from `start` up to `stop`, which is not among them. -/
structure Span where
  start : Nat
  stop : Nat
  deriving DecidableEq, Repr

structure Program where
  lines : List Assembly.Line
  bindings : Bindings
  labels : Labels
  spans : List Span

namespace Program

def text (p : Program) : String :=
  Assembly.emit p.lines

def linesIn (p : Program) (s : Span) : List Assembly.Line :=
  (p.lines.take s.stop).drop s.start

/-- The lines of the instruction with this index, its label included. -/
def linesFor? (p : Program) (index : Nat) : Option (List Assembly.Line) :=
  p.spans[index]?.map p.linesIn

/-- The lines of each instruction of the stream. -/
def blocks (p : Program) : List (List Assembly.Line) :=
  p.spans.map p.linesIn

/-- All lines before the print routine. -/
def body (p : Program) : List Assembly.Line :=
  p.lines.take (p.lines.length - Assembly.PrintInt.routine.length)

/-- How many lines carry an instruction. -/
def instCount (p : Program) : Nat :=
  p.lines.countP (·.inst?.isSome)

end Program

end ThreeAddress
