import ThreeAddress.Shell.Octets

/-!
# Numbers

Numerals as they begin a text: blanks, a sign and digits of a base, which the first digits may tell.
Values are those of a signed machine word; what is too large for one becomes the nearest that there
is.
-/

namespace ThreeAddress.Shell

def isSpace (c : Char) : Bool := c == ' ' || (9 ≤ c.toNat && c.toNat ≤ 13)

def leastWord : Int := -0x8000000000000000

def greatestWord : Int := 0x7fffffffffffffff

/-- The word that arithmetic without overflow checks ends at. -/
def wrapWord (n : Int) : Int := n.bmod UInt64.size

def digitValue (c : Char) : Nat :=
  if c.isDigit then c.toNat - '0'.toNat
  else if 'a' ≤ c && c ≤ 'z' then c.toNat - 'a'.toNat + 10
  else if 'A' ≤ c && c ≤ 'Z' then c.toNat - 'A'.toNat + 10
  else 36

/-- The value of the digits that a text begins with, and the rest. -/
def readDigits (base : Nat) (n : Nat) : Octets → Nat × Octets
  | [] => (n, [])
  | c :: cs =>
    if digitValue c < base then readDigits base (n * base + digitValue c) cs else (n, c :: cs)

/-- A numeral that a text begins with. -/
structure Numeral where
  value : Int
  /-- Whether the value is exact. -/
  inRange : Bool
  rest : Octets

namespace Numeral

def ofInt (n : Int) (rest : Octets) : Numeral :=
  if n < leastWord then ⟨leastWord, false, rest⟩
  else if greatestWord < n then ⟨greatestWord, false, rest⟩
  else ⟨n, true, rest⟩

/-- The base that the first digits tell, and the digits. -/
def tellBase : Octets → Nat × Octets
  | '0' :: x :: c :: cs =>
    if (x == 'x' || x == 'X') && digitValue c < 16 then (16, c :: cs)
    else (8, '0' :: x :: c :: cs)
  | '0' :: cs => (8, '0' :: cs)
  | cs => (10, cs)

/-- Whether a numeral is negative, its magnitude and what comes after it, if there is a numeral. With
no base given, the digits tell it. -/
def parts? (base : Option Nat) (text : Octets) : Option (Bool × Nat × Octets) :=
  let cs := text.dropWhile isSpace
  let (negative, cs) := match cs with
    | '-' :: cs => (true, cs)
    | '+' :: cs => (false, cs)
    | cs => (false, cs)
  let (base, digits) := base.elim (tellBase cs) (·, cs)
  match digits with
  | [] => none
  | c :: _ =>
    if base ≤ digitValue c then none
    else
      let (n, rest) := readDigits base 0 digits
      some (negative, n, rest)

/-- Reads a numeral. Where there are no digits the value is zero and nothing has been read. -/
def read (base : Option Nat) (text : Octets) : Numeral :=
  match parts? base text with
  | some (negative, n, rest) => ofInt (if negative then -(n : Int) else n) rest
  | none => ⟨0, true, text⟩

/-- Reads a numeral as a word without a sign, into which negative numbers wrap. -/
def readUnsigned (base : Option Nat) (text : Octets) : Numeral :=
  match parts? base text with
  | some (negative, n, rest) =>
    if UInt64.size ≤ n then ⟨UInt64.size - 1, false, rest⟩
    else ⟨if negative then (-(n : Int)) % UInt64.size else n, true, rest⟩
  | none => ⟨0, true, text⟩

/-- The value of a text that is a numeral and blanks. A blank text has one only if the base is to be
told. -/
def whole? (base : Option Nat) (text : Octets) : Option Int :=
  let n := read base text
  if !n.inRange || (base.isSome && n.rest.length = text.length) then none
  else if n.rest.all isSpace then some n.value
  else none

end Numeral

def natOctets (n : Nat) : Octets := Nat.toDigits 10 n

def intOctets (n : Int) : Octets :=
  if n < 0 then '-' :: natOctets n.natAbs else natOctets n.natAbs

end ThreeAddress.Shell
