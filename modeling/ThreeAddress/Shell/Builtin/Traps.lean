import ThreeAddress.Shell.Builtin.Jobs
import ThreeAddress.Shell.Signals

/-!
# Traps and signals
-/

namespace ThreeAddress.Shell.Builtin

open Files (Access)

variable {m : Type → Type} [Monad m] [Access m]

def listTraps : Eff m Nat := do
  let traps := (← context).traps.mergeSort fun a b => a.1 ≤ b.1
  print (traps.flatMap fun (n, action) =>
    "trap -- ".toList ++ quoted action ++ ' ' :: (Signal.name n).toList ++ ['\n'])

def setTrap (signal : Nat) (action : Option Octets) : Eff m Unit :=
  change fun c =>
    { c with traps := action.toList.map (signal, ·) ++ c.traps.filter (·.1 != signal) }

/-- Says what is to be done at signals. Without an action, which a number is none, they have their
usual effect again. -/
def trap (arguments : List Octets) : Eff m Nat := do
  match (← takeOptions [] arguments).2 with
  | [] => listTraps
  | first :: others => do
    let isNumber := first.all Char.isDigit && (Signal.number? first).isSome
    let isReset := others.isEmpty || isNumber
    let conditions := if isReset then first :: others else others
    let action := if isReset || first = ['-'] then none else some first
    let known := conditions.map Signal.number? |>.takeWhile Option.isSome |>.reduceOption
    known.forM (setTrap · action)
    match conditions[known.length]? with
    | none => return 0
    | some text => do
      report ("trap: ".toList ++ text ++ ": bad trap".toList)
      return 1

/-! ### Sending signals -/

/-- What a command is to send, or whether it is to tell of signals. -/
structure Sending where
  signal : Option Nat
  isList : Bool

def sendingOf : List Given → Sending → Eff m Sending
  | [], s => return s
  | ('s', name) :: options, s => do
    match Signal.sendable? name with
    | some n => sendingOf options { s with signal := some n }
    | none => fail (.badSignal name)
  | _ :: options, s => sendingOf options { s with isList := true }

/-- What is to be sent, and the operands. -/
def takeSending (words : List Octets) : Eff m (Sending × List Octets) := do
  match words with
  | ('-' :: name) :: rest =>
    match Signal.sendable? name with
    | some n => return (⟨some n, false⟩, rest)
    | none => do
      let (options, operands) ← takeValued ['l'] ['s'] words.length words
      return (← sendingOf options ⟨none, false⟩, operands)
  | words => return (⟨none, false⟩, words)

def listSignals : List Octets → Eff m Nat
  | [] => print (String.join (("0" :: Signal.names.tail).map (· ++ "\n"))).toList
  | status :: _ => do
    let n ← count status
    let n := if 128 < n then n - 128 else n
    if n = 0 || Signal.names.length ≤ n then fail (.noSignalOf status)
    line (Signal.name n).toList

/-- Sends a signal to what a word names, and says whether that could be done. -/
def sendTo (signal : Nat) (word : Octets) : Eff m Bool := do
  let isSent ← match word with
    | '%' :: _ => refuseJob word
    | '-' :: number => do
      let _ ← count number
      pure false
    | word => send (← count word) signal
  if !isSent then warn .noProcess
  return isSent

def kill (arguments : List Octets) : Eff m Nat := do
  let (s, operands) ← takeSending arguments
  if s.isList && s.signal.isNone then listSignals operands
  else if s.isList || operands.isEmpty then fail .nothingToKill
  else
    let results ← operands.mapM (sendTo (s.signal.getD 15))
    return if results.all id then 0 else 1

end ThreeAddress.Shell.Builtin
