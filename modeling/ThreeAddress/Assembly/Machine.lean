import ThreeAddress.Assembly.Line

/-!
# Running lines

A machine for the lines of a program: a register for each number, memory in bytes, and the operands
of the last comparison. It stands at a line. A line that is no instruction passes control to the
next one, and so does an instruction that does not branch; where there is no line, the machine
stops. What a literal, an address expression or a code address means is left to a `Setting`.
-/

namespace ThreeAddress.Assembly

abbrev Word := BitVec 64

abbrev Byte := BitVec 8

abbrev Memory := Word → Byte

namespace Memory

/-- The word at an address, its lowest byte first. -/
def load (memory : Memory) (a : Word) : Word :=
  memory (a + 7) ++ memory (a + 6) ++ memory (a + 5) ++ memory (a + 4) ++
    memory (a + 3) ++ memory (a + 2) ++ memory (a + 1) ++ memory a

def storeByte (memory : Memory) (a : Word) (b : Byte) : Memory :=
  fun c => if c = a then b else memory c

/-- The byte of a word at an offset. -/
def byteOf (w : Word) (offset : Word) : Byte :=
  (w >>> (8 * offset)).setWidth 8

/-- Changes the eight bytes from an address on. -/
def store (memory : Memory) (a w : Word) : Memory :=
  fun c => if c - a < 8 then byteOf w (c - a) else memory c

theorem storeByte_self (memory : Memory) (a : Word) (b : Byte) :
    memory.storeByte a b a = b := if_pos rfl

theorem storeByte_of_ne {memory : Memory} {a c : Word} (b : Byte) (h : c ≠ a) :
    memory.storeByte a b c = memory c := if_neg h

end Memory

/-- What the assembler and the loader decide. -/
structure Setting where
  literal : String → Word
  address : String → Word
  /-- The address of the code of a line. -/
  codeOf : Nat → Word
  /-- The line whose code is at an address. -/
  lineAt? : Word → Option Nat

/-- A system call with its number, its first argument and the bytes it is given. -/
structure Call where
  number : Word
  first : Word
  bytes : List Byte
  deriving DecidableEq, Repr

structure Machine where
  line : Nat
  x : UInt32 → Word
  memory : Memory
  compared : Word × Word
  calls : List Call

namespace Machine

/-- A half register reads as its low 32 bits. -/
def get (m : Machine) : Register → Word
  | .x n => m.x n
  | .w n => ((m.x n).setWidth 32).setWidth 64

/-- Writing a half register clears the other half. -/
def set (m : Machine) (r : Register) (w : Word) : Machine :=
  match r with
  | .x n => { m with x := fun k => if k = n then w else m.x k }
  | .w n => { m with x := fun k => if k = n then (w.setWidth 32).setWidth 64 else m.x k }

theorem get_set_self (m : Machine) (n : UInt32) (w : Word) :
    (m.set (.x n) w).get (.x n) = w := if_pos rfl

theorem get_set_of_ne {m : Machine} {n k : UInt32} (w : Word) (h : k ≠ n) :
    (m.set (.x n) w).get (.x k) = m.get (.x k) := if_neg h

def next (m : Machine) : Machine := { m with line := m.line + 1 }

/-- The register that a call leaves its return address in. -/
def link : Register := .x 30

/-- A register's value or a literal's; a memory cell is no value. -/
def value? (s : Setting) (m : Machine) : Argument → Option Word
  | .register r => some (m.get r)
  | .literal text => some (s.literal text)
  | .cell _ => none

def cellAddress? (m : Machine) : Argument → Option Word
  | .cell base => some (m.get base)
  | _ => none

def holds (m : Machine) : Condition → Bool
  | .eq => m.compared.1 == m.compared.2
  | .lt => m.compared.1.slt m.compared.2

/-- The bytes from an address on. -/
def bytesAt (m : Machine) (a : Word) (count : Nat) : List Byte :=
  (List.range count).map fun i => m.memory (a + .ofNat 64 i)

/-- The line on which a label is declared. Of two declarations, which an assembler would refuse,
the later one counts. -/
def lineOf? : List Line → String → Option Nat
  | [], _ => none
  | l :: ls, label =>
    ((lineOf? ls label).map (· + 1)).or (if l = .label label then some 0 else none)

def jump (lines : List Line) (m : Machine) (label : String) : Option Machine :=
  (lineOf? lines label).map fun line => { m with line }

/-- Goes to the line whose code a register points at. -/
def jumpTo (s : Setting) (m : Machine) (r : Register) : Option Machine :=
  (s.lineAt? (m.get r)).map fun line => { m with line }

/-- The eighth register holds a call's number, the first three its arguments: a descriptor, an
address and a count of bytes. -/
def call (m : Machine) : Machine :=
  { m with calls := m.calls ++ [⟨m.x 8, m.x 0, m.bytesAt (m.x 1) (m.x 2).toNat⟩] }

def exec (s : Setting) (lines : List Line) (m : Machine) : Inst → Option Machine
  | .mov rd a => do return (m.set rd (← m.value? s a)).next
  | .ldr rd a => do return (m.set rd (m.memory.load (← m.cellAddress? a))).next
  | .str rs a => do
    return { m.next with memory := m.memory.store (← m.cellAddress? a) (m.get rs) }
  | .strb rs a => do
    return { m.next with
      memory := m.memory.storeByte (← m.cellAddress? a) ((m.get rs).setWidth 8) }
  | .adr rd text => some (m.set rd (s.address text)).next
  | .add rd rn a => do return (m.set rd (m.get rn + (← m.value? s a))).next
  | .sub rd rn a => do return (m.set rd (m.get rn - (← m.value? s a))).next
  | .mul rd rn rm => some (m.set rd (m.get rn * m.get rm)).next
  | .udiv rd rn rm => some (m.set rd (m.get rn / m.get rm)).next
  | .cmp rn a => do return { m.next with compared := (m.get rn, ← m.value? s a) }
  | .cset rd c => some (m.set rd (if m.holds c then 1 else 0)).next
  | .b label => m.jump lines label
  | .bcond c label => if m.holds c then m.jump lines label else some m.next
  | .br rn => m.jumpTo s rn
  | .bl label => (m.set link (s.codeOf (m.line + 1))).jump lines label
  | .cbnz rn label => if m.get rn = 0 then some m.next else m.jump lines label
  | .ret => m.jumpTo s link
  | .svc _ => some m.call.next

/-- One line; nothing where the machine cannot go on. -/
def step? (s : Setting) (lines : List Line) (m : Machine) : Option Machine :=
  match lines[m.line]? with
  | none => none
  | some l =>
    match l.inst? with
    | none => some m.next
    | some i => m.exec s lines i

def steps? (s : Setting) (lines : List Line) : Nat → Machine → Option Machine
  | 0, m => some m
  | n + 1, m => (m.step? s lines).bind (steps? s lines n)

theorem steps?_add (s : Setting) (lines : List Line) (j k : Nat) (m : Machine) :
    m.steps? s lines (j + k) = (m.steps? s lines j).bind (steps? s lines k) := by
  induction j generalizing m with
  | zero => simp [steps?]
  | succ j ih =>
    rw [Nat.succ_add, steps?, steps?]
    cases m.step? s lines with
    | none => rfl
    | some after => exact ih after

end Machine

end ThreeAddress.Assembly
