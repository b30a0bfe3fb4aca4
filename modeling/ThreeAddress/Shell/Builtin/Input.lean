import ThreeAddress.Shell.Builtin.Basic
import ThreeAddress.Shell.Field

/-!
# Input
-/

namespace ThreeAddress.Shell.Builtin

open Files (Access)

variable {m : Type → Type} [Monad m] [Access m]

/-- A line of input in which a backslash escapes the next character and joins lines. -/
def takeLine (raw : Bool) : Nat → Eff m (Marked × Bool)
  | 0 => return ([], false)
  | fuel + 1 => do
    let text ← readLine 0
    let (marks, joins, ended) := scan text
    if joins then
      let (rest, ended) ← takeLine raw fuel
      return (marks ++ rest, ended)
    else return (marks, ended)
where
  /-- The marks of a line, whether the next is part of it, and whether there was an end to it. -/
  scan : Octets → Marked × Bool × Bool
    | [] => ([], false, false)
    | ['\n'] => ([], false, true)
    | '\\' :: c :: cs =>
      if raw then
        let (marks, joins, ended) := scan (c :: cs)
        (.plain '\\' :: marks, joins, ended)
      else if c = '\n' then ([], true, true)
      else
        let (marks, joins, ended) := scan cs
        (.escaped c :: marks, joins, ended)
    | c :: cs =>
      let (marks, joins, ended) := scan cs
      ((if c = '\x00' then marks else .plain c :: marks), joins, ended)

/-- Reads a line into variables. A question is asked only of who sits at a terminal. -/
def read (arguments : List Octets) : Eff m Nat := do
  let (options, operands) ← takeValued ['r'] ['p'] arguments.length arguments
  if operands.isEmpty then fail .missingNames
  let (text, ended) ← takeLine (options.any (·.1 = 'r')) 10000
  let values := lineFields (← context).separators operands.length text
  for (name, i) in operands.zipIdx do
    assign name (values[i]?.getD [])
  return if ended then 0 else 1

end ThreeAddress.Shell.Builtin
