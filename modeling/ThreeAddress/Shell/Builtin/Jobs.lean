import ThreeAddress.Shell.Builtin.Basic

/-!
# Jobs

Commands in the background have ended before the next command begins. They are known by their
numbers; there is no control of them.
-/

namespace ThreeAddress.Shell.Builtin

open Files (Access)

variable {m : Type → Type} [Monad m] [Access m]

/-- Refuses the name of a job, of which there is none. -/
def refuseJob {α : Type} (name : Octets) : Eff m α :=
  match name with
  | ['%'] => fail .noCurrentJob
  | ['%', '%'] => fail .noCurrentJob
  | ['%', '+'] => fail .noCurrentJob
  | ['%', '-'] => fail .noPreviousJob
  | name => fail (.noSuchJob name)

/-- Goes on with a job. -/
def resume (arguments : List Octets) : Eff m Nat := do
  match (← takeOptions [] arguments).2 with
  | [] => fail .noCurrentJob
  | name :: _ => refuseJob name

def jobs (arguments : List Octets) : Eff m Nat := do
  match (← takeOptions ['l', 'p'] arguments).2 with
  | [] => return 0
  | name :: _ => refuseJob name

def wait (arguments : List Octets) : Eff m Nat := do
  let (_, operands) ← takeOptions [] arguments
  let known := (← context).jobs
  let statuses ← operands.mapM fun name => do
    if name.head? = some '%' then refuseJob name
    return known.lookup (← count name)
  return if operands.isEmpty then 0 else (statuses.reduceOption.getLast?).getD 127

end ThreeAddress.Shell.Builtin
