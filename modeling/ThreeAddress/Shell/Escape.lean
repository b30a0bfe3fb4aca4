import ThreeAddress.Shell.Octets

/-!
# Escapes

What a backslash and the characters after it stand for in `echo` and `printf`. A byte is written in
up to three octal digits; in an argument a zero may stand before them, and `\c` ends all output.
-/

namespace ThreeAddress.Shell

def octalDigit? (c : Char) : Option Nat :=
  if '0' ≤ c ∧ c ≤ '7' then some (c.toNat - '0'.toNat) else none

/-- At most so many octal digits, and the rest. -/
def readOctal : Nat → Nat → Octets → Nat × Octets
  | 0, n, cs => (n, cs)
  | _ + 1, n, [] => (n, [])
  | limit + 1, n, c :: cs =>
    match octalDigit? c with
    | some d => readOctal limit (8 * n + d) cs
    | none => (n, c :: cs)

theorem length_readOctal (limit n : Nat) (cs : Octets) :
    (readOctal limit n cs).2.length ≤ cs.length := by
  induction limit generalizing n cs with
  | zero => simp [readOctal]
  | succ limit ih =>
    cases cs with
    | nil => simp [readOctal]
    | cons c cs =>
      simp only [readOctal]
      split
      · exact Nat.le_succ_of_le (ih _ cs)
      · simp

/-- What a letter after a backslash stands for. -/
def letterEscape? : Char → Option Char
  | 'a' => some '\x07'
  | 'b' => some '\x08'
  | 'e' => some '\x1b'
  | 'f' => some '\x0c'
  | 'n' => some '\n'
  | 'r' => some '\r'
  | 't' => some '\t'
  | 'v' => some '\x0b'
  | '\\' => some '\\'
  | _ => none

/-- The character that the text after a backslash begins with, and the rest. Where there is none,
the backslash stands for itself. -/
def escape (cs : Octets) : Char × Octets :=
  match cs with
  | [] => ('\\', [])
  | c :: rest =>
    if (octalDigit? c).isSome then
      let (n, rest) := readOctal 3 0 cs
      (Char.ofNat (n % 256), rest)
    else
      match letterEscape? c with
      | some d => (d, rest)
      | none => ('\\', cs)

theorem length_escape (cs : Octets) : (escape cs).2.length ≤ cs.length := by
  cases cs with
  | nil => simp [escape]
  | cons c cs =>
    simp only [escape]
    split
    · exact length_readOctal 3 0 (c :: cs)
    · split <;> simp

/-- A text of which escapes have been replaced, and whether all output ends with it. -/
structure Unescaped where
  text : Octets
  stop : Bool
  deriving DecidableEq, Repr

/-- The zero that may stand before octal digits is left out. -/
def withoutZero : Octets → Octets
  | '0' :: c :: cs => if (octalDigit? c).isSome then c :: cs else '0' :: c :: cs
  | cs => cs

theorem length_withoutZero (cs : Octets) : (withoutZero cs).length ≤ cs.length := by
  unfold withoutZero
  split
  · split <;> simp
  · exact Nat.le_refl _

/-- The text of an argument whose escapes count. -/
def Unescaped.ofArgument : Octets → Unescaped
  | [] => ⟨[], false⟩
  | '\\' :: 'c' :: _ => ⟨[], true⟩
  | '\\' :: cs =>
    have := Nat.le_trans (length_escape (withoutZero cs)) (length_withoutZero cs)
    let e := escape (withoutZero cs)
    let rest := ofArgument e.2
    ⟨e.1 :: rest.text, rest.stop⟩
  | c :: cs =>
    let rest := ofArgument cs
    ⟨c :: rest.text, rest.stop⟩
termination_by cs => cs.length
decreasing_by all_goals simp only [List.length_cons]; omega

/-- The output of `echo`, with a newline unless the first argument says not. -/
def echo : List Octets → Octets
  | ['-', 'n'] :: arguments => (words arguments).text
  | arguments =>
    let e := words arguments
    if e.stop then e.text else e.text ++ ['\n']
where
  words (arguments : List Octets) : Unescaped :=
    Unescaped.ofArgument (List.intercalate [' '] arguments)

end ThreeAddress.Shell
