import ThreeAddress.Shell.Variables

/-!
# Options, numbers and output of built-in commands
-/

namespace ThreeAddress.Shell.Builtin

open Files (Access)

variable {m : Type → Type} [Monad m] [Access m]

/-! ### Options -/

/-- Whether a word is a group of options. -/
def isOptions : Octets → Bool
  | '-' :: _ :: _ => true
  | _ => false

/-- An option that was given, with its argument, which is empty if it has none. -/
abbrev Given := Char × Octets

/-- The options of a group, some of which take the rest of it or the next word as an argument. -/
def takeGroup (letters valued : List Char) :
    Octets → List Octets → Eff m (List Given × List Octets)
  | [], words => return ([], words)
  | c :: cs, words => do
    if valued.contains c then
      match cs, words with
      | [], [] => fail (.missingArgument c)
      | [], word :: words => return ([(c, word)], words)
      | cs, words => return ([(c, cs)], words)
    else if letters.contains c then
      let (options, words) ← takeGroup letters valued cs words
      return ((c, []) :: options, words)
    else fail (.badOption c)

/-- The options of a command before its operands; only the letters given are options. -/
def takeValued (letters valued : List Char) :
    Nat → List Octets → Eff m (List Given × List Octets)
  | 0, words => return ([], words)
  | _ + 1, [] => return ([], [])
  | fuel + 1, word :: words => do
    if word = ['-', '-'] then return ([], words)
    else if isOptions word then
      let (options, words) ← takeGroup letters valued word.tail words
      let (more, words) ← takeValued letters valued fuel words
      return (options ++ more, words)
    else return ([], word :: words)

/-- Options without arguments. -/
def takeOptions (letters : List Char) (words : List Octets) :
    Eff m (List Char × List Octets) := do
  let (options, operands) ← takeValued letters [] words.length words
  return (options.map (·.1), operands)

/-! ### Output -/

/-- Writes to standard output and gives the status that follows from that. -/
def print (text : Octets) : Eff m Nat := do
  if ← emit 1 text then return 0
  else do
    warn (.writeFailed ((← context).command.getD []))
    return 1

def line (text : Octets) : Eff m Nat := print (text ++ ['\n'])

/-- A text in quotes, as the shell would read it: single quotes around all but single quotes, which
double quotes are put around. -/
def quoted : Octets → Octets
  | [] => "''".toList
  | text => runs (text.length + 1) text
where
  runs : Nat → Octets → Octets
    | 0, _ => []
    | fuel + 1, text =>
      let part := text.takeWhile (· != '\'')
      let rest := text.drop part.length
      let marks := rest.takeWhile (· == '\'')
      let after := rest.drop marks.length
      let first := '\'' :: part ++ ['\'']
      if marks.isEmpty then first
      else
        let both := first ++ '"' :: marks ++ ['"']
        if after.isEmpty then both else both ++ runs fuel after

/-- What is said of a name with a value. -/
def definition (name value : Octets) : Octets := name ++ '=' :: quoted value

/-- The place of a name among so many, in which tables are kept in order. -/
def slot (size : Nat) (name : Octets) : Nat :=
  name.foldl (fun n c => n + c.toNat) ((name.head?.getD '\x00').toNat * 16) % size

/-- Names in the order of their slots; those of one slot stay in the order in which they came. -/
def bySlot {α : Type} (size : Nat) (entries : List (Octets × α)) : List (Octets × α) :=
  entries.mergeSort fun a b => slot size a.1 ≤ slot size b.1

end ThreeAddress.Shell.Builtin
