import ThreeAddress.Assembly.Machine
import ThreeAddress.Instruction

/-!
# Running a stream

What a stream of instructions means by itself: names hold words, a memory operand is the cell whose
address its name holds, and a counter says which instruction comes next. A comparison gives one or
zero, and a jump on false is taken at zero. An operator that is not known does nothing.
-/

namespace ThreeAddress

open Assembly (Word Memory)

structure Execution where
  counter : Nat
  names : String → Word
  memory : Memory
  printed : List Word

namespace Execution

/-- The value of an operand; an unused slot has none. -/
def value? (literal : String → Word) (e : Execution) : Operand → Option Word
  | .empty => none
  | .immediate text => some (literal text)
  | .memory name => some (e.memory.load (e.names name))
  | .symbol name => some (e.names name)

/-- Gives a name or a cell a value; nothing else can take one. -/
def assign? (e : Execution) (w : Word) : Operand → Option Execution
  | .memory name => some { e with memory := e.memory.store (e.names name) w }
  | .symbol name => some { e with names := fun n => if n = name then w else e.names n }
  | _ => none

def next (e : Execution) : Execution := { e with counter := e.counter + 1 }

/-- Only a numeral names an instruction to go to. -/
def jump? (e : Execution) (target : Operand) : Option Execution :=
  target.address?.map fun counter => { e with counter }

/-- Computes from both sources into the destination. -/
def compute? (literal : String → Word) (e : Execution) (i : Instruction)
    (f : Word → Word → Word) : Option Execution := do
  let w := f (← e.value? literal i.a1) (← e.value? literal i.a2)
  return (← e.assign? w i.a3).next

def exec? (literal : String → Word) (e : Execution) (i : Instruction) : Option Execution :=
  match i.opcode with
  | .assign => do return (← e.assign? (← e.value? literal i.a1) i.a2).next
  | .add => e.compute? literal i (· + ·)
  | .sub => e.compute? literal i (· - ·)
  | .mult => e.compute? literal i (· * ·)
  | .lessThan => e.compute? literal i fun a b => if a.slt b then 1 else 0
  | .jump => e.jump? i.a1
  | .jumpIfFalse => do
    if (← e.value? literal i.a1) = 0 then e.jump? i.a2 else return e.next
  | .print => do
    return { e.next with printed := e.printed ++ [← e.value? literal i.a1] }
  | .unknown _ => some e.next

/-- One instruction; nothing past the end of the stream. -/
def step? (literal : String → Word) (stream : List Instruction) (e : Execution) :
    Option Execution :=
  stream[e.counter]?.bind (e.exec? literal)

def steps? (literal : String → Word) (stream : List Instruction) :
    Nat → Execution → Option Execution
  | 0, e => some e
  | n + 1, e => (e.step? literal stream).bind (steps? literal stream n)

end Execution

end ThreeAddress
