import ThreeAddress.Shell.Session

/-!
# Home directories

A system keeps its accounts in a file, each in a line of fields between colons. The first field is a
user's name, the sixth the home directory.
-/

namespace ThreeAddress.Shell

open Files (Access)

/-- The home directory of a user among some accounts. -/
def homeAmong (accounts user : Octets) : Option Octets :=
  (accounts.splitOn '\n').findSome? fun line =>
    match line.splitOn ':' with
    | name :: _ :: _ :: _ :: _ :: home :: _ => if name = user then some home else none
    | _ => none

variable {m : Type → Type} [Monad m] [Access m]

/-- The home directory of a user, or without a name that which the shell was told. -/
def homeOf? (user : Octets) : Eff m (Option Octets) := do
  if user.isEmpty then return (← context).value? "HOME".toList
  else
    match ← (Access.read ⟨"/etc/passwd"⟩ : m _) with
    | .ok content => return homeAmong (Shell.octetsOfBytes content) user
    | .error _ => return none

end ThreeAddress.Shell
