import ThreeAddress.Shell.Number

/-!
# Floating numbers

Numerals with a point or an exponent are read as the nearest number of a width, a tie going to the
even one, and printed in the ways that a format can ask for. All of it is exact arithmetic on a number
and a power of two.
-/

namespace ThreeAddress.Shell

/-- A magnitude: a number times a power of two, or what is no number. -/
inductive Magnitude where
  | finite (m : Nat) (e : Int)
  | infinite
  | notNumber
  deriving DecidableEq, Repr

structure Floating where
  negative : Bool
  magnitude : Magnitude
  deriving DecidableEq, Repr

def Floating.ofNat (n : Nat) : Floating := ⟨false, .finite n 0⟩

/-- How many bits numbers have, and between which powers of two the last of them is. -/
structure FloatWidth where
  bits : Nat
  least : Int
  greatest : Int
  deriving DecidableEq, Repr

namespace FloatWidth

def double : FloatWidth := ⟨53, -1074, 971⟩

def extended : FloatWidth := ⟨64, -16445, 16320⟩

/-- How many hexadecimal digits a number has after the first. -/
def hexDigits (w : FloatWidth) : Nat := (w.bits - 1) / 4

end FloatWidth

/-- A quotient rounded to the nearest number, a tie to the even one. -/
def roundQuotient (n d : Nat) : Nat :=
  let q := n / d
  let r := 2 * (n % d)
  if d < r || (r = d && q % 2 = 1) then q + 1 else q

namespace Magnitude

/-- The exponent of the last of so many bits that a quotient has. -/
def lastExponent (bits n d : Nat) : Int :=
  let size : Int := (n.log2 : Int) - d.log2
  -- The quotient may be just below the power of two that the sizes give.
  let size := if size ≥ 0 then (if n < d * Nat.pow 2 size.toNat then size - 1 else size)
    else if n * Nat.pow 2 (-size).toNat < d then size - 1 else size
  size - (bits - 1)

/-- A quotient divided by a power of two. -/
def shifted (n d : Nat) (e : Int) : Nat × Nat :=
  if e ≥ 0 then (n, d * Nat.pow 2 e.toNat) else (n * Nat.pow 2 (-e).toNat, d)

/-- The nearest number to a quotient, and whether it is in range: not too large, and not too small to
be as exact as others unless it is the quotient itself. -/
def ofQuotient (w : FloatWidth) (n d : Nat) : Magnitude × Bool :=
  if n = 0 then (.finite 0 0, true)
  else
    let e := lastExponent w.bits n d
    let rounded (e : Int) : Nat := let q := shifted n d e; roundQuotient q.1 q.2
    if e < w.least then
      let q := shifted n d w.least
      let isTiny := e < w.least - 1 || rounded e < Nat.pow 2 w.bits
      (.finite (rounded w.least) w.least, !isTiny || q.1 % q.2 = 0)
    else
      let m := rounded e
      let (m, e) := if m = Nat.pow 2 w.bits then (Nat.pow 2 (w.bits - 1), e + 1) else (m, e)
      if w.greatest < e then (.infinite, false) else (.finite m e, true)

end Magnitude

/-! ### Reading -/

/-- A number read from the beginning of a text. -/
structure FloatNumeral where
  value : Floating
  inRange : Bool
  rest : Octets

/-- A power of ten or two as a quotient. -/
def scaled (n base : Nat) (e : Int) : Nat × Nat :=
  if e ≥ 0 then (n * Nat.pow base e.toNat, 1) else (n, Nat.pow base (-e).toNat)

/-- The exponent after its letter, if there is one, and the rest. -/
def readExponent (letters : List Char) (cs : Octets) : Int × Octets :=
  match cs with
  | c :: rest =>
    if letters.contains c then
      let (negative, digits) := match rest with
        | '-' :: ds => (true, ds)
        | '+' :: ds => (false, ds)
        | ds => (false, ds)
      if digits.head?.any Char.isDigit then
        let (n, rest) := readDigits 10 0 digits
        let n := min n 100000
        (if negative then -(n : Int) else n, rest)
      else (0, cs)
    else (0, cs)
  | [] => (0, [])

/-- The digits around a point, how many of them are after it, and the rest. -/
def readPointed (base : Nat) (cs : Octets) : Option (Nat × Nat × Octets) :=
  let isDigit (c : Char) : Bool := digitValue c < base
  let whole := cs.takeWhile isDigit
  let afterWhole := cs.drop whole.length
  let (parts, rest) := match afterWhole with
    | '.' :: ds => (ds.takeWhile isDigit, ds.dropWhile isDigit)
    | ds => ([], ds)
  if whole.isEmpty && parts.isEmpty then none
  else some ((readDigits base 0 (whole ++ parts)).1, parts.length, rest)

def startsWithWord (word : String) (cs : Octets) : Bool :=
  (cs.take word.length).map Char.toLower == word.toList

/-- What follows the word for no number may name it, in parentheses. -/
def dropPayload (cs : Octets) : Octets :=
  match cs with
  | '(' :: rest =>
    match rest.dropWhile fun c => c.isAlphanum || c == '_' with
    | ')' :: rest => rest
    | _ => cs
  | cs => cs

def FloatNumeral.read (w : FloatWidth) (text : Octets) : FloatNumeral :=
  let cs := text.dropWhile isSpace
  let (negative, cs) := match cs with
    | '-' :: cs => (true, cs)
    | '+' :: cs => (false, cs)
    | cs => (false, cs)
  let result (q : Nat × Nat) (rest : Octets) : FloatNumeral :=
    let (m, inRange) := Magnitude.ofQuotient w q.1 q.2
    ⟨⟨negative, m⟩, inRange, rest⟩
  if startsWithWord "infinity" cs then ⟨⟨negative, .infinite⟩, true, cs.drop 8⟩
  else if startsWithWord "inf" cs then ⟨⟨negative, .infinite⟩, true, cs.drop 3⟩
  else if startsWithWord "nan" cs then ⟨⟨negative, .notNumber⟩, true, dropPayload (cs.drop 3)⟩
  else
    let hexadecimal := if startsWithWord "0x" cs then readPointed 16 (cs.drop 2) else none
    match hexadecimal with
    | some (n, places, rest) =>
      let (e, rest) := readExponent ['p', 'P'] rest
      result (scaled n 2 (e - 4 * places)) rest
    | none =>
      match readPointed 10 cs with
      | some (n, places, rest) =>
        let (e, rest) := readExponent ['e', 'E'] rest
        result (scaled n 10 (e - places)) rest
      | none => ⟨⟨false, .finite 0 0⟩, true, text⟩

/-! ### Printing -/

/-- A number times a power of two as a quotient. -/
def quotient (m : Nat) (e : Int) : Nat × Nat := scaled m 2 e

/-- The digits of a number with a point before the last so many of them. -/
def pointed (n places : Nat) (keepPoint : Bool) : Octets :=
  let digits := natOctets n
  let digits := List.replicate (places + 1 - digits.length) '0' ++ digits
  let whole := digits.take (digits.length - places)
  if places = 0 then (if keepPoint then whole ++ ['.'] else whole)
  else whole ++ ['.'] ++ digits.drop (digits.length - places)

def fixedText (m : Nat) (e : Int) (places : Nat) (keepPoint : Bool) : Octets :=
  let (n, d) := quotient m e
  pointed (roundQuotient (n * Nat.pow 10 places) d) places keepPoint

/-- The first digits of a number, so many after the first one, and its decimal exponent. -/
def firstDigits (m : Nat) (e : Int) (places : Nat) : Nat × Int :=
  if m = 0 then (0, 0)
  else
    let (n, d) := quotient m e
    let digitsAt (x : Int) : Nat :=
      let s : Int := (places : Int) - x
      if s ≥ 0 then roundQuotient (n * Nat.pow 10 s.toNat) d
      else roundQuotient n (d * Nat.pow 10 (-s).toNat)
    let isAtMost (x : Int) : Bool :=
      if x ≥ 0 then d * Nat.pow 10 x.toNat ≤ n else d ≤ n * Nat.pow 10 (-x).toNat
    let guess : Int := ((n.log2 : Int) - d.log2) * 30103 / 100000
    let x := if isAtMost (guess + 1) then guess + 1 else if isAtMost guess then guess else guess - 1
    let digits := digitsAt x
    if Nat.pow 10 (places + 1) ≤ digits then (digits / 10, x + 1) else (digits, x)

def exponentText (letter : Char) (x : Int) : Octets :=
  let digits := natOctets x.natAbs
  letter :: (if x < 0 then '-' else '+') ::
    (if digits.length < 2 then '0' :: digits else digits)

def scientificText (m : Nat) (e : Int) (places : Nat) (keepPoint : Bool) : Octets :=
  let (digits, x) := firstDigits m e places
  pointed digits places keepPoint ++ exponentText 'e' x

/-- Without the zeros at the end of the places after a point. -/
def dropZeros (text : Octets) : Octets :=
  if text.contains '.' then
    let kept := (text.reverse.dropWhile (· == '0'))
    (if kept.head? = some '.' then kept.tail else kept).reverse
  else text

/-- The shorter of the two ways for so many digits. -/
def generalText (m : Nat) (e : Int) (precision : Nat) (keepZeros : Bool) : Octets :=
  let digits := max precision 1
  let (first, x) := firstDigits m e (digits - 1)
  let finish (text : Octets) : Octets := if keepZeros then text else dropZeros text
  if x < -4 || (digits : Int) ≤ x then
    finish (pointed first (digits - 1) keepZeros) ++ exponentText 'e' x
  else finish (fixedText m e ((digits : Int) - 1 - x).toNat keepZeros)

/-- The bits in hexadecimal, with so many places, or as many as are needed. -/
def hexadecimalText (w : FloatWidth) (m : Nat) (e : Int) (places : Option Nat) (keepPoint : Bool) :
    Octets :=
  let shift := if m = 0 then 0 else w.bits - 1 - m.log2
  -- A number below the least that has all its bits keeps the least exponent.
  let shift := if e - shift < w.least then (e - w.least).toNat else shift
  let m := m * Nat.pow 2 shift
  let e := if m = 0 then 0 else e - shift + 4 * w.hexDigits
  let width := places.getD w.hexDigits
  let kept := if width < w.hexDigits then roundQuotient m (Nat.pow 2 (4 * (w.hexDigits - width)))
    else m * Nat.pow 16 (width - w.hexDigits)
  let (kept, e) := if 16 ≤ kept / Nat.pow 16 width then (kept / 16, e + 4) else (kept, e)
  let digits := Nat.toDigits 16 (kept % Nat.pow 16 width)
  let digits := List.replicate (width - digits.length) '0' ++ digits
  let digits := if width = 0 then [] else digits
  let digits := if places.isNone then (digits.reverse.dropWhile (· == '0')).reverse else digits
  let point : Octets := if digits.isEmpty && !keepPoint then [] else ['.']
  let sign := if e < 0 then '-' else '+'
  "0x".toList ++ Nat.toDigits 16 (kept / Nat.pow 16 width) ++ point ++ digits ++ ['p', sign] ++
    natOctets e.natAbs

/-- The text of a magnitude as a directive asks. -/
def Magnitude.text (w : FloatWidth) (directive : Char) (precision : Option Nat) (alternate : Bool) :
    Magnitude → Octets
  | .infinite => "inf".toList
  | .notNumber => "nan".toList
  | .finite m e =>
    match directive with
    | 'e' => scientificText m e (precision.getD 6) alternate
    | 'f' => fixedText m e (precision.getD 6) alternate
    | 'a' => hexadecimalText w m e precision alternate
    | _ => generalText m e (precision.getD 6) alternate

end ThreeAddress.Shell
