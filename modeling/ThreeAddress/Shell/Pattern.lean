import ThreeAddress.Shell.Octets

/-!
# Patterns

`*` stands for any text, `?` for one character, and `[…]` for one of several; a backslash takes the
meaning from the character after it. A bracket that is never closed is a character like any other.
-/

namespace ThreeAddress.Shell

inductive CharacterClass where
  | alnum | cntrl | lower | space | alpha | digit | print | upper | blank | graph | punct | xdigit
  deriving DecidableEq, Repr

namespace CharacterClass

def all : List (String × CharacterClass) :=
  [("alnum", alnum), ("cntrl", cntrl), ("lower", lower), ("space", space), ("alpha", alpha),
    ("digit", digit), ("print", print), ("upper", upper), ("blank", blank), ("graph", graph),
    ("punct", punct), ("xdigit", xdigit)]

/-- Only characters of ASCII are in a class. -/
def mem (k : CharacterClass) (c : Char) : Bool :=
  match k with
  | alnum => c.isAlphanum
  | cntrl => c.toNat < 32 || c.toNat = 127
  | lower => c.isLower
  | space => c == ' ' || (9 ≤ c.toNat && c.toNat ≤ 13)
  | alpha => c.isAlpha
  | digit => c.isDigit
  | print => 32 ≤ c.toNat && c.toNat < 127
  | upper => c.isUpper
  | blank => c == ' ' || c == '\t'
  | graph => 32 < c.toNat && c.toNat < 127
  | punct => 32 < c.toNat && c.toNat < 127 && !c.isAlphanum
  | xdigit => c.isDigit || ('a' ≤ c && c ≤ 'f') || ('A' ≤ c && c ≤ 'F')

end CharacterClass

inductive SetItem where
  | range (first last : Char)
  | named (k : CharacterClass)
  deriving DecidableEq, Repr

def SetItem.mem (item : SetItem) (c : Char) : Bool :=
  match item with
  | .range first last => first ≤ c && c ≤ last
  | .named k => k.mem c

inductive Atom where
  | exact (c : Char)
  | one
  | many
  | oneOf (inverted : Bool) (items : List SetItem)
  deriving DecidableEq, Repr

abbrev Pattern := List Atom

namespace Pattern

/-! ### Reading -/

def dropPrefix? : Octets → Octets → Option Octets
  | [], cs => some cs
  | p :: ps, c :: cs => if p = c then dropPrefix? ps cs else none
  | _ :: _, [] => none

/-- A named class after its opening bracket. -/
def namedClass? (cs : Octets) : Option (CharacterClass × Octets) :=
  CharacterClass.all.findSome? fun (name, k) =>
    (dropPrefix? (":" ++ name ++ ":]").toList cs).map (k, ·)

/-- What a set holds, up to its closing bracket, which does not count at the very start. -/
def setItems (fuel : Nat) (atStart : Bool) (cs : Octets) : Option (List SetItem × Octets) :=
  match fuel, cs with
  | 0, _ => none
  | _ + 1, [] => none
  | fuel + 1, c :: cs =>
    if c = ']' && !atStart then some ([], cs)
    else
      match (if c = '[' then namedClass? cs else none) with
      | some (k, rest) => add (.named k) (setItems fuel false rest)
      | none =>
        match (if c = '\\' then cs else c :: cs) with
        | [] => none
        | first :: '-' :: ']' :: rest =>
          add (.range first first) (setItems fuel false ('-' :: ']' :: rest))
        | first :: '-' :: '\\' :: last :: rest => add (.range first last) (setItems fuel false rest)
        | first :: '-' :: last :: rest => add (.range first last) (setItems fuel false rest)
        | first :: rest => add (.range first first) (setItems fuel false rest)
where
  add (item : SetItem) : Option (List SetItem × Octets) → Option (List SetItem × Octets)
    | some (items, rest) => some (item :: items, rest)
    | none => none

/-- A set after its opening bracket. -/
def set? (cs : Octets) : Option (Atom × Octets) :=
  let (inverted, body) := match cs with
    | '!' :: body => (true, body)
    | body => (false, body)
  (setItems (body.length + 1) true body).map fun (items, rest) => (.oneOf inverted items, rest)

def read : Nat → Octets → Pattern
  | 0, _ => []
  | _ + 1, [] => []
  | fuel + 1, c :: cs =>
    match c, cs with
    | '*', cs => .many :: read fuel cs
    | '?', cs => .one :: read fuel cs
    | '\\', c :: cs => .exact c :: read fuel cs
    | '[', cs =>
      match set? cs with
      | some (a, rest) => a :: read fuel rest
      | none => .exact '[' :: read fuel cs
    | c, cs => .exact c :: read fuel cs

def ofText (cs : Octets) : Pattern :=
  read cs.length cs

/-! ### Matching -/

def Atom.accepts (a : Atom) (c : Char) : Bool :=
  match a with
  | .exact d => c = d
  | .one => true
  | .many => false
  | .oneOf inverted items => items.any (·.mem c) != inverted

/-- Whether a rest of the text does. -/
def anyRest (test : Octets → Bool) : Octets → Bool
  | [] => test []
  | c :: cs => test (c :: cs) || anyRest test cs

/-- Whether the pattern stands for exactly the text. -/
def covers : Pattern → Octets → Bool
  | [], cs => cs.isEmpty
  | .many :: p, cs => anyRest (covers p) cs
  | _ :: _, [] => false
  | a :: p, c :: cs => Atom.accepts a c && covers p cs

end Pattern

end ThreeAddress.Shell
