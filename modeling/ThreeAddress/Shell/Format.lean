import ThreeAddress.Shell.Escape
import ThreeAddress.Shell.Fault
import ThreeAddress.Shell.Floating

/-!
# Formatted output

A format is used again for as long as it uses arguments and there are any left; absent arguments
count as empty. A number that is none, or not all of one, is a fault that output goes on after.
-/

namespace ThreeAddress.Shell

structure Formatting where
  arguments : List Octets
  out : Octets
  /-- What was wrong with arguments. -/
  faults : List Fault
  /-- Whether an argument ended all output. -/
  stop : Bool
  /-- What is wrong with the format, which ends all output too. -/
  failure : Option Fault

namespace Formatting

def start (arguments : List Octets) : Formatting := ⟨arguments, [], [], false, none⟩

def emit (f : Formatting) (cs : Octets) : Formatting := { f with out := f.out ++ cs }

def fail (f : Formatting) (e : Fault) : Formatting := { f with failure := some e }

def isOver (f : Formatting) : Bool := f.stop || f.failure.isSome

/-- The next argument. -/
def take (f : Formatting) : Option Octets × Formatting :=
  (f.arguments.head?, { f with arguments := f.arguments.tail })

def note (f : Formatting) (e : Option Fault) : Formatting :=
  { f with faults := f.faults ++ e.toList }

end Formatting

/-! ### Numbers as arguments -/

/-- What is wrong with a numeral of which some is left over. -/
def conversionFault (text rest : Octets) (inRange : Bool) : Option Fault :=
  if !rest.isEmpty then
    some (if rest.length = text.length then .notNumeric text else .notAllNumeric text)
  else if !inRange then some (.outOfRange text)
  else none

/-- The number of a character, where one stands after a quotation mark. -/
def quotedNumber? : Octets → Option Nat
  | c :: cs => if c == '"' || c == '\'' then some ((cs.head?.map Char.toNat).getD 0) else none
  | [] => none

namespace Formatting

/-- The next argument as a number, read in one of two ways. -/
def takeNumber (f : Formatting) (readNumeral : Octets → Numeral) : Int × Formatting :=
  match f.take with
  | (none, f) => (0, f)
  | (some text, f) =>
    match quotedNumber? text with
    | some n => (n, f)
    | none =>
      let n := readNumeral text
      (n.value, f.note (conversionFault text n.rest n.inRange))

def takeFloat (f : Formatting) : Floating × Formatting :=
  match f.take with
  | (none, f) => (.ofNat 0, f)
  | (some text, f) =>
    match quotedNumber? text with
    | some n => (.ofNat n, f)
    | none =>
      let n := FloatNumeral.read .double text
      (n.value, f.note (conversionFault text n.rest n.inRange))

end Formatting

/-! ### Directives -/

structure Directive where
  flags : List Char
  width : Nat
  precision : Option Nat
  letter : Char

namespace Directive

def has (d : Directive) (flag : Char) : Bool := d.flags.contains flag

def padded (d : Directive) (text : Octets) : Octets :=
  let blanks := List.replicate (d.width - text.length) ' '
  if d.has '-' then text ++ blanks else blanks ++ text

/-- A number after what stands before its digits, filled with zeros if that is asked for. -/
def number (d : Directive) (zeros : Bool) (before digits : Octets) : Octets :=
  if zeros && d.has '0' && !d.has '-' then
    before ++ List.replicate (d.width - before.length - digits.length) '0' ++ digits
  else d.padded (before ++ digits)

def sign (d : Directive) (negative : Bool) : Octets :=
  if negative then ['-'] else if d.has '+' then ['+'] else if d.has ' ' then [' '] else []

/-- At least as many digits as the precision says. -/
def digits (d : Directive) (text : Octets) : Octets :=
  match d.precision with
  | none => text
  | some p => if p = 0 && text = ['0'] then [] else List.replicate (p - text.length) '0' ++ text

def signedText (d : Directive) (n : Int) : Octets :=
  d.number d.precision.isNone (d.sign (n < 0)) (d.digits (natOctets n.natAbs))

def base (d : Directive) : Nat :=
  match d.letter with
  | 'o' => 8
  | 'u' => 10
  | _ => 16

def unsignedText (d : Directive) (n : Nat) : Octets :=
  let digits := d.digits (Nat.toDigits d.base n)
  let digits := if d.base = 8 && d.has '#' && digits.head? ≠ some '0' then '0' :: digits else digits
  let before := if d.base = 16 && d.has '#' && n ≠ 0 then ['0', 'x'] else []
  let text := d.number d.precision.isNone before digits
  if d.letter = 'X' then text.map Char.toUpper else text

def floatText (d : Directive) (w : FloatWidth) (x : Floating) : Octets :=
  let digits := x.magnitude.text w d.letter.toLower d.precision (d.has '#')
  let isFinite := match x.magnitude with
    | .finite _ _ => true
    | _ => false
  -- The sign of a hexadecimal number comes before all of it.
  let (before, digits) :=
    if d.letter.toLower = 'a' && isFinite then
      (d.sign x.negative ++ digits.take 2, digits.drop 2)
    else (d.sign x.negative, digits)
  let text := d.number isFinite before digits
  if d.letter.isUpper then text.map Char.toUpper else text

def cutText (d : Directive) (text : Octets) : Octets :=
  d.padded (d.precision.elim text text.take)

end Directive

namespace Formatting

/-- Carries out a directive, of which the whole text is given too. -/
def carryOut (f : Formatting) (d : Directive) (text : Octets) : Formatting :=
  match d.letter with
  | 's' =>
    let (argument, f) := f.take
    f.emit (d.cutText (argument.getD []))
  | 'b' =>
    let (argument, f) := f.take
    let e := Unescaped.ofArgument (argument.getD [])
    { f.emit (d.cutText e.text) with stop := e.stop }
  | 'c' =>
    let (argument, f) := f.take
    f.emit (d.padded [(argument.getD []).head?.getD '\x00'])
  | letter =>
    if letter = 'd' || letter = 'i' then
      let (n, f) := f.takeNumber (Numeral.read none)
      f.emit (d.signedText n)
    else if "ouxX".toList.contains letter then
      let (n, f) := f.takeNumber (Numeral.readUnsigned none)
      f.emit (d.unsignedText n.toNat)
    else if "aAeEfFgG".toList.contains letter then
      let (x, f) := f.takeFloat
      f.emit (d.floatText .double x)
    else f.fail (.badDirective text)

/-- A width or precision, in digits or as an argument, of which the lower bits count. -/
def measure (f : Formatting) (cs : Octets) : Int × Octets × Formatting :=
  match cs with
  | '*' :: cs =>
    let (n, f) := f.takeNumber (Numeral.read none)
    (n.bmod UInt32.size, cs, f)
  | cs =>
    let (n, rest) := readDigits 10 0 cs
    if n < 0x80000000 then (n, rest, f) else (0, rest, f.fail .tooWide)

/-- Reads a directive after its percent sign, and carries it out. -/
def directive (f : Formatting) (cs : Octets) : Formatting × Octets :=
  let flags := cs.takeWhile "#-+ 0".toList.contains
  let (width, afterWidth, f) := f.measure (cs.drop flags.length)
  let (precision, rest, f) := match afterWidth with
    | '.' :: ds =>
      let (n, rest, f) := f.measure ds
      (if n < 0 then none else some n.toNat, rest, f)
    | ds => (none, ds, f)
  match rest with
  | [] => (f.fail .unfinishedFormat, [])
  | letter :: rest =>
    let flags := if width < 0 then '-' :: flags else flags
    let text := '%' :: cs.take (cs.length - rest.length)
    if f.isOver then (f, rest)
    else (f.carryOut ⟨flags, width.natAbs, precision, letter⟩ text, rest)

/-- Uses a format once. -/
def once : Nat → Octets → Formatting → Formatting
  | 0, _, f => f
  | _ + 1, [], f => f
  | fuel + 1, c :: cs, f =>
    match c, cs with
    | '\\', cs =>
      let (d, rest) := escape cs
      once fuel rest (f.emit [d])
    | '%', '%' :: rest => once fuel rest (f.emit ['%'])
    | '%', cs =>
      let (f, rest) := f.directive cs
      if f.isOver then f else once fuel rest f
    | c, cs => once fuel cs (f.emit [c])

/-- Uses a format for so many arguments at most. -/
def repeated (template : Octets) : Nat → Formatting → Formatting
  | 0, f => f
  | fuel + 1, f =>
    let after := once template.length template f
    if after.isOver || after.arguments.isEmpty || after.arguments.length = f.arguments.length then
      after
    else repeated template fuel after

end Formatting

def format (template : Octets) (arguments : List Octets) : Formatting :=
  Formatting.repeated template (arguments.length + 1) (.start arguments)

end ThreeAddress.Shell
