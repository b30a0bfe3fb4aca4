import ThreeAddress.Shell.Builtin.Basic

/-!
# Going on elsewhere
-/

namespace ThreeAddress.Shell.Builtin

open Files (Access)

variable {m : Type → Type} [Monad m] [Access m]

/-- Ends the shell. In what is done at a signal or the end, the status from before that counts. -/
def exit (arguments : List Octets) : Eff m Nat := do
  let c ← context
  match arguments with
  | [] => setStatus (c.statusBefore.getD c.status)
  | text :: _ => setStatus (← count text)
  throw .exit

/-- Leaves loops, or goes on with an outer one. -/
def leave (skip : Nat → Skip) (arguments : List Octets) : Eff m Nat := do
  let n ← match arguments with
    | [] => pure 1
    | text :: _ => do
      let n ← count text
      if n = 0 then fail (.badNumber text)
      pure n
  let n := min n (← context).loops
  if 0 < n then change ({ · with skip := some (skip n) })
  return 0

def return' (arguments : List Octets) : Eff m Nat := do
  let status ← match arguments with
    | [] => pure (← context).status
    | text :: _ => count text
  change ({ · with skip := some (.returning (!arguments.isEmpty)) })
  return status

def shift (arguments : List Octets) : Eff m Nat := do
  let n ← match arguments with
    | [] => pure 1
    | text :: _ => count text
  let held := (← context).arguments
  if held.length < n then fail .cannotShift
  setArguments (held.drop n)
  return 0

end ThreeAddress.Shell.Builtin
