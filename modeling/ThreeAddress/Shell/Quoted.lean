import ThreeAddress.Shell.Octets

/-!
# Names in quotes

A name is written between single quotes, as a shell would read it. A single quote in it is written
outside of them, and bytes that cannot be printed are written with backslashes between quotes of
their own. A name with single quotes but nothing that double quotes would change is written between
those. Where it can do without quotes, a name may also be written as it is.
-/

namespace ThreeAddress.Shell.Quoted

/-- The letter that stands for a byte after a backslash. -/
def letter? (c : Char) : Option Char :=
  match c.toNat with
  | 7 => some 'a'
  | 8 => some 'b'
  | 9 => some 't'
  | 10 => some 'n'
  | 11 => some 'v'
  | 12 => some 'f'
  | 13 => some 'r'
  | _ => none

def isPrintable (c : Char) : Bool := 32 ≤ c.toNat && c.toNat < 127

/-- A byte that is not printed, without the quotes around it. -/
def code (c : Char) : Octets :=
  match letter? c with
  | some l => ['\\', l]
  | none =>
    let digit (n : Nat) : Char := Char.ofNat ('0'.toNat + n)
    ['\\', digit (c.toNat / 64), digit (c.toNat / 8 % 8), digit (c.toNat % 8)]

/-- The bytes that mean the same between quotes of both kinds, at the start of a name or after it. -/
def isSame (first : Bool) (c : Char) : Bool :=
  c.isAlphanum || "%+,-./:@]_ '".toList.contains c || (first && (c == '#' || c == '~'))

/-- Whether double quotes change nothing in a name. -/
def allSame : Octets → Bool
  | [] => true
  | c :: cs => isSame true c && cs.all (isSame false)

/-- What comes after the opening quote; `coded` says whether codes have been opened last. -/
def body (coded : Bool) : Octets → Octets
  | [] => ['\'']
  | c :: cs =>
    if c = '\'' then "'\\''".toList ++ body false cs
    else if isPrintable c then (if coded then "''".toList else []) ++ c :: body false cs
    else (if coded then [] else "'$'".toList) ++ code c ++ body true cs

def quote (name : Octets) : Octets :=
  if name.contains '\'' && allSame name then '"' :: name ++ ['"']
  else '\'' :: body false name

/-- What means something else to a shell where it stands without quotes. -/
def isSpecial (c : Char) : Bool :=
  !isPrintable c || " !\"$&'()*;<=>?[\\^`|".toList.contains c

/-- Whether a name can do without quotes. -/
def isPlain (name : Octets) : Bool :=
  match name with
  | [] => false
  | [c] => !isSpecial c && !"#~\x7b\x7d".toList.contains c
  | c :: cs => !isSpecial c && c != '#' && c != '~' && cs.all (!isSpecial ·)

def quoteIfNeeded (name : Octets) : Octets := if isPlain name then name else quote name

/-- The same for a name with a colon after it, which one in the name could be taken for. -/
def quoteBeforeColon (name : Octets) : Octets :=
  if isPlain name && !name.contains ':' then name else quote name

end ThreeAddress.Shell.Quoted
