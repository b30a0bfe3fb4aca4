import ThreeAddress.Assembly.PrintInt
import ThreeAddress.Bindings
import ThreeAddress.CompileError
import ThreeAddress.Event
import ThreeAddress.Labels
import ThreeAddress.Options

/-!
# Lowering one instruction

An instruction is lowered in two parts that know nothing of each other. `touches` lists what it asks
of the binding table, in order, and where it is at fault; `lines` says which lines it gives once
every key has a register. `lower` binds the keys up to the first fault and, if there is none, gives
the lines. Every use of an operand is loaded anew; a memory destination is computed in the store
register and then stored.
-/

namespace ThreeAddress

open Assembly (Register Inst Line)

namespace Lowering

inductive Fault where
  | missing (slot : Nat)
  | notDestination (operand : Operand)
  | unresolved (target : Operand)
  deriving DecidableEq, Repr

def Fault.error (index : Nat) (opcode : Opcode) : Fault → CompileError
  | .missing slot => .missingOperand index opcode slot
  | .notDestination operand => .invalidDestination index operand
  | .unresolved target => .unresolvedTarget index target

inductive Touch where
  | key (k : Key)
  | fault (f : Fault)
  deriving DecidableEq, Repr

def keysBeforeFault : List Touch → List Key
  | [] => []
  | .key k :: ts => k :: keysBeforeFault ts
  | .fault _ :: _ => []

def fault? : List Touch → Option Fault
  | [] => none
  | .key _ :: ts => fault? ts
  | .fault f :: _ => some f

theorem fault?_append (ts us : List Touch) :
    fault? (ts ++ us) = (fault? ts).or (fault? us) := by
  induction ts with
  | nil => rfl
  | cons t ts ih => cases t <;> simp [fault?, ih]

theorem keysBeforeFault_append {ts : List Touch} (us : List Touch) (h : fault? ts = none) :
    keysBeforeFault (ts ++ us) = keysBeforeFault ts ++ keysBeforeFault us := by
  induction ts with
  | nil => rfl
  | cons t ts ih =>
    cases t with
    | key k => simp [keysBeforeFault, ih h]
    | fault f => simp [fault?] at h

/-- What a direct branch is told of its target. -/
inductive Target where
  | declared (label : String)
  /-- Past the end of the stream, or not registered at all. -/
  | undeclared (address : Nat) (label : Option String)
  | notNumeric
  deriving DecidableEq, Repr

def Target.find (labels : Labels) (target : Operand) : Target :=
  match target.address? with
  | none => .notNumeric
  | some address =>
    match labels.declared? address with
    | some label => .declared label
    | none => .undeclared address (labels.registered? address)

def Target.label? : Target → Option String
  | .declared label => some label
  | .undeclared _ label => label
  | .notNumeric => none

/-! ### What an instruction touches -/

def reads (slot : Nat) : Operand → List Touch
  | .empty => [.fault (.missing slot)]
  | .immediate _ => []
  | .memory name => [.key (.value name)]
  | .symbol name => [.key (.value name)]

def writes (slot : Nat) : Operand → List Touch
  | .empty => [.fault (.missing slot)]
  | .immediate literal => [.fault (.notDestination (.immediate literal))]
  | .memory name => [.key (.scratch .store), .key (.value name)]
  | .symbol name => [.key (.value name)]

/-- Strict branches reach declared labels only. -/
def branches (labels : Labels) (strict : Bool) (target : Operand) : List Touch :=
  match strict, Target.find labels target with
  | true, .undeclared _ _ => [.fault (.unresolved target)]
  | true, .notNumeric => [.fault (.unresolved target)]
  | _, _ => []

/-- Scratch registers come first, then the destination, then the sources; only an assignment to
memory asks for its base last. -/
def touches (labels : Labels) (strict : Bool) (i : Instruction) : List Touch :=
  match i.opcode with
  | .assign =>
    match i.a2 with
    | .memory name => .key (.scratch .store) :: reads 1 i.a1 ++ [.key (.value name)]
    | dest => writes 2 dest ++ reads 1 i.a1
  | .add | .sub | .mult | .lessThan =>
    .key (.scratch .lhs) :: .key (.scratch .rhs) :: writes 3 i.a3 ++ reads 1 i.a1 ++ reads 2 i.a2
  | .jumpIfFalse => .key (.scratch .cond) :: reads 1 i.a1 ++ branches labels strict i.a2
  | .jump =>
    match i.a1 with
    | .memory name => [.key (.scratch .jumpPtr), .key (.value name)]
    | target => branches labels strict target
  | .print => .key (.scratch .print) :: reads 1 i.a1
  | .unknown _ => []

/-! ### Which lines it gives -/

section Lines

variable (register : Key → Register)

/-- Brings an operand's value into a register. An unused slot has none to bring. -/
def load (rd : Register) : Operand → List Inst
  | .empty => []
  | .immediate literal => [.mov rd (.literal literal)]
  | .memory name => [.ldr rd (.cell (register (.value name)))]
  | .symbol name => [.mov rd (.register (register (.value name)))]

/-- The register that a result for the destination is computed in. -/
def result : Operand → Register
  | .symbol name => register (.value name)
  | _ => register (.scratch .store)

/-- Completes a memory destination. -/
def writeBack : Operand → List Inst
  | .memory name => [.str (register (.scratch .store)) (.cell (register (.value name)))]
  | _ => []

/-- Both sources in their scratch registers. -/
def loadBoth (i : Instruction) : List Inst :=
  load register (register (.scratch .lhs)) i.a1 ++ load register (register (.scratch .rhs)) i.a2

def insts (labels : Labels) (i : Instruction) : List Inst :=
  let lhs := register (.scratch .lhs)
  let rhs := register (.scratch .rhs)
  match i.opcode with
  | .assign => load register (result register i.a2) i.a1 ++ writeBack register i.a2
  | .add =>
    loadBoth register i ++ [.add (result register i.a3) lhs (.register rhs)] ++
      writeBack register i.a3
  | .sub =>
    loadBoth register i ++ [.sub (result register i.a3) lhs (.register rhs)] ++
      writeBack register i.a3
  | .mult =>
    loadBoth register i ++ [.mul (result register i.a3) lhs rhs] ++ writeBack register i.a3
  | .lessThan =>
    loadBoth register i ++ [.cmp lhs (.register rhs), .cset (result register i.a3) .lt] ++
      writeBack register i.a3
  | .jumpIfFalse =>
    let cond := register (.scratch .cond)
    load register cond i.a1 ++ [.cmp cond (.int 0)] ++
      (Target.find labels i.a2).label?.toList.map (.bcond .eq)
  | .jump =>
    match i.a1 with
    | .memory name =>
      let pointer := register (.scratch .jumpPtr)
      [.ldr pointer (.cell (register (.value name))), .br pointer]
    | target => (Target.find labels target).label?.toList.map .b
  | .print =>
    let value := register (.scratch .print)
    load register value i.a1 ++ Assembly.PrintInt.call value
  | .unknown _ => []

def unsupportedText (tag : String) (i : Instruction) : String :=
  "Unsupported: " ++ tag ++ " " ++ i.a1.text ++ " " ++ i.a2.text ++ " " ++ i.a3.text

/-- An operator that is not known leaves a comment. -/
def lines (labels : Labels) (i : Instruction) : List Line :=
  match i.opcode with
  | .unknown tag => [.comment (unsupportedText tag i)]
  | _ => (insts register labels i).map .inst

end Lines

/-! ### What it reports -/

def targetEvents (labels : Labels) (index : Nat) (i : Instruction) (target : Operand) :
    List Event :=
  match Target.find labels target with
  | .declared _ => []
  | .undeclared address _ => [.undeclared index i.opcode address]
  | .notNumeric => [.dropped index i.opcode target]

/-- The events after the bindings of an instruction without a fault. -/
def closingEvents (labels : Labels) (index : Nat) (i : Instruction) : List Event :=
  match i.opcode with
  | .jumpIfFalse =>
    targetEvents labels index i i.a2 ++
      (Target.find labels i.a2).label?.toList.map (.branchIfZero index)
  | .jump =>
    match i.a1 with
    | .memory _ => []
    | target => targetEvents labels index i target
  | .unknown tag => [.unsupported index tag]
  | _ => []

end Lowering

structure Lowered where
  bindings : Bindings
  events : List Event
  result : Except CompileError (List Line)

open Lowering in
def Instruction.lower (labels : Labels) (options : Options) (bindings : Bindings) (index : Nat)
    (i : Instruction) : Lowered :=
  let ts := touches labels options.strict i
  let after := bindings.insertAll (keysBeforeFault ts)
  let opening := .lowering index i :: (bindings.added after).map fun (k, r) => .bound k r
  match fault? ts with
  | some f => ⟨after, opening, .error (f.error index i.opcode)⟩
  | none =>
    ⟨after, opening ++ closingEvents labels index i, .ok (lines after.register labels i)⟩

end ThreeAddress
