import ThreeAddress.Shell.Octets

/-!
# Commands

What a script says, as a tree. A word is a list of pieces. Quoting is kept in it: a piece that is a
quotation mark begins or ends a quoted part, and an escaped character stands for itself wherever it
is. Here-documents are known by their number, as their text comes after the command that uses them.
-/

namespace ThreeAddress.Shell

/-- What is made of the value of a parameter. -/
inductive Operation where
  | value
  | length
  | orDefault
  | orAssign
  | orFail
  | alternative
  | trimSuffix (longest : Bool)
  | trimPrefix (longest : Bool)
  /-- None that there is, which is an error only when it is reached. -/
  | unknown
  deriving DecidableEq, Repr

inductive Opening where
  | input
  | output
  /-- Replaces a file even if files are to be kept. -/
  | replace
  | append
  | both
  deriving DecidableEq, Repr

mutual

inductive Piece where
  | char (c : Char)
  | escaped (c : Char)
  | quote
  /-- With `emptyToo`, a parameter that is set to nothing counts as not set. -/
  | parameter (name : Octets) (op : Operation) (emptyToo : Bool) (word : List Piece)
  | substitution (body : Option Command)
  | arithmetic (word : List Piece)

inductive Redirection where
  | file (fd : Nat) (opening : Opening) (target : List Piece)
  /-- Makes a descriptor a copy of another, or closes it. -/
  | duplicate (fd : Nat) (source : List Piece)
  | document (fd : Nat) (number : Nat)

inductive Command where
  | simple (line : Nat) (assignments words : List (List Piece)) (redirections : List Redirection)
  | pipeline (stages : List Command)
  | negation (c : Command)
  | both (first second : Command)
  | either (first second : Command)
  | sequence (first second : Command)
  | background (c : Command)
  | redirected (line : Nat) (c : Option Command) (redirections : List Redirection)
  | subshell (line : Nat) (c : Option Command) (redirections : List Redirection)
  | conditional (test : Option Command) (yes no : Option Command)
  /-- Runs the body while the test ends in the wanted way. -/
  | loop (wanted : Bool) (test body : Option Command)
  | forEach (line : Nat) (name : Octets) (words : List (List Piece)) (body : Option Command)
  | choice (line : Nat) (subject : List Piece)
      (branches : List (List (List Piece) × Option Command))
  | function (name : Octets) (body : Command)

end

abbrev Word := List Piece

abbrev Branch := List Word × Option Command

namespace Word

/-- The characters of a word in which nothing is quoted or expanded. -/
def plain? : Word → Option Octets
  | [] => some []
  | .char c :: w => (plain? w).map (c :: ·)
  | _ => none

end Word

/-- The commands that are part of the shell and cannot be defined anew. -/
def specialNames : List String :=
  [".", ":", "break", "continue", "eval", "exec", "exit", "export", "local", "readonly", "return",
    "set", "shift", "times", "trap", "unset"]

/-! ### Names -/

def isNameStart (c : Char) : Bool := c.isAlpha || c == '_'

def isNameChar (c : Char) : Bool := c.isAlphanum || c == '_'

def isName : Octets → Bool
  | [] => false
  | c :: cs => isNameStart c && cs.all isNameChar

/-- The parameters whose names are no letters. -/
def isSpecialName (c : Char) : Bool :=
  "@*#?-$!".toList.contains c || c.isDigit

/-- The name before an equals sign, and the rest. -/
def Word.assignment? (w : Word) : Option (Octets × Word) :=
  go [] w
where
  go (name : Octets) : Word → Option (Octets × Word)
    | .char '=' :: w => if isName name.reverse then some (name.reverse, w) else none
    | .char c :: w => go (c :: name) w
    | _ => none

end ThreeAddress.Shell
