import ThreeAddress.Shell.Builtin.Variables

/-!
# Aliases
-/

namespace ThreeAddress.Shell.Builtin

open Files (Access)

variable {m : Type → Type} [Monad m] [Access m]

/-- In how many slots the aliases are kept. -/
def aliasSlots : Nat := 39

/-- A line that tells of an alias. -/
def aliasLine (a : Octets × Octets) : Octets := definition a.1 a.2 ++ ['\n']

def setAlias (name value : Octets) : Eff m Unit :=
  change fun c =>
    { c with
      aliases :=
        if (c.aliases.lookup name).isSome then
          c.aliases.map fun e => if e.1 = name then (name, value) else e
        else c.aliases ++ [(name, value)] }

def notAnAlias (command : String) (name : Octets) : Eff m Unit :=
  report (command.toList ++ ": ".toList ++ name ++ " not found".toList)

/-- Makes aliases, or tells of them after all that is wrong has been said. An equals sign at the
start of a word is part of a name. -/
def alias' (arguments : List Octets) : Eff m Nat := do
  if arguments.isEmpty then
    print ((bySlot aliasSlots (← context).aliases).flatMap aliasLine)
  else
    let results ← arguments.mapM fun word => do
      let (rest, value) := splitAssignment word.tail
      match value with
      | some value => do
        setAlias (word.take 1 ++ rest) value
        return some []
      | none =>
        match (← context).aliases.lookup word with
        | some value => return some (aliasLine (word, value))
        | none => do
          notAnAlias "alias" word
          return none
    let status ← print (results.reduceOption.flatten)
    return if results.all Option.isSome then status else 1

def unalias (arguments : List Octets) : Eff m Nat := do
  let (options, names) ← takeOptions ['a'] arguments
  if !options.isEmpty then
    change ({ · with aliases := [] })
    return 0
  else
    let results ← names.mapM fun name => do
      let isKnown := ((← context).aliases.lookup name).isSome
      change fun c => { c with aliases := c.aliases.filter (·.1 != name) }
      if !isKnown then notAnAlias "unalias" name
      return isKnown
    return if results.all id then 0 else 1

end ThreeAddress.Shell.Builtin
