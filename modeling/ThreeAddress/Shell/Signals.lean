import ThreeAddress.Shell.Signal
import ThreeAddress.Shell.Streams

/-!
# Receiving signals

A signal is sent to a shell by its number; copies of a shell have the number of the shell. A shell
receives the signals that it was sent when it comes to run again. One that it does nothing about can
end it at once; what is to be done at another waits until a command has ended.
-/

namespace ThreeAddress.Shell

open Files (Access)

variable {m : Type → Type} [Monad m] [Access m]

/-- What a shell does at a signal. -/
inductive Answer where
  | nothing
  | action (text : Octets)
  | death
  deriving DecidableEq, Repr

def Context.answer (c : Context) (signal : Nat) : Answer :=
  if Signal.isAbsolute signal then if Signal.isHarmless signal then .nothing else .death
  else if c.deafTo.contains signal then .nothing
  else
    match c.traps.lookup signal with
    | some [] => .nothing
    | some text => .action text
    | none => if Signal.isHarmless signal then .nothing else .death

/-- Receives a signal. -/
def receive (signal : Nat) : Eff m Unit := do
  match (← context).answer signal with
  | .nothing => return ()
  | .action _ =>
    change fun c => { c with pending := signal :: c.pending.filter (· != signal) }
  | .death => throw (.killed signal)

/-- Receives the signals that the shell was sent, if this is not a copy of it. -/
def receiveAll : Eff m Unit := do
  let s ← get
  if !s.signals.isEmpty && !s.context.isCopy then
    let (mine, others) := s.signals.partition (·.1 = s.context.process)
    set { s with signals := others }
    mine.forM fun (_, signal) => receive signal

/-- Sends a signal to a shell that runs or waits, if there is one of the number. -/
def send (process signal : Nat) : Eff m Bool := do
  let c ← context
  if process = c.process || c.callers.contains process then
    modify fun s => { s with signals := s.signals ++ [(process, signal)] }
    receiveAll
    return true
  else return false

/-- Waits for something to end that is not this shell itself, and gives its status. If a signal has
ended it, that is told. -/
def awaiting (action : Eff m Nat) : Eff m Nat := do
  let status ← match ← attempt action with
    | .ok status => pure status
    | .error (.killed signal) => do
      match Signal.text? signal with
      | some text => report text.toList
      | none => pure ()
      pure (128 + signal)
    | .error e => throw e
  receiveAll
  return status

/-- What a copy of a shell, or a program that it starts, still does nothing about. -/
def Context.ignored (c : Context) : List (Nat × Octets) := c.traps.filter (·.2.isEmpty)

end ThreeAddress.Shell
