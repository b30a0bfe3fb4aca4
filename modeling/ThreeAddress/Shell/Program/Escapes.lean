import ThreeAddress.Shell.Escape
import ThreeAddress.Shell.Program.Complaint

/-!
# Escapes in programs

What a backslash and the characters after it stand for in the programs `echo` and `printf`. Bytes can
also be written in hexadecimal, and characters by their number.
-/

namespace ThreeAddress.Shell.Program

def isHexDigit (c : Char) : Bool := digitValue c < 16

/-- At most so many hexadecimal digits, and the rest. -/
def readHex (limit : Nat) (cs : Octets) : Octets × Octets :=
  let digits := (cs.take limit).takeWhile isHexDigit
  (digits, cs.drop digits.length)

def byteOf (n : Nat) : Char := Char.ofNat (n % 256)

/-! ### The program `echo` -/

/-- The text of an argument of `echo` whose escapes count. -/
def echoed : Nat → Octets → Unescaped
  | 0, cs => ⟨cs, false⟩
  | _ + 1, [] => ⟨[], false⟩
  | fuel + 1, c :: cs =>
    let going (text rest : Octets) : Unescaped :=
      let u := echoed fuel rest
      ⟨text ++ u.text, u.stop⟩
    match c, cs with
    | '\\', 'c' :: _ => ⟨[], true⟩
    | '\\', 'x' :: rest =>
      let (digits, rest) := readHex 2 rest
      if digits.isEmpty then going ['\\', 'x'] rest
      else going [byteOf (readDigits 16 0 digits).1] rest
    | '\\', d :: rest =>
      if (octalDigit? d).isSome then
        let (n, rest) := readOctal 3 0 (if d = '0' then rest else d :: rest)
        going [byteOf n] rest
      else
        match letterEscape? d with
        | some e => going [e] rest
        | none => going ['\\', d] rest
    | c, rest => going [c] rest

/-- The output of `echo`, which leaves escapes alone unless told to replace them. -/
def echoText (arguments : List Octets) : Octets :=
  let isOption (word : Octets) : Bool :=
    word.head? = some '-' && 1 < word.length && word.tail.all "neE".toList.contains
  let options := (arguments.takeWhile isOption).flatMap List.tail
  let words := List.intercalate [' '] (arguments.drop (arguments.takeWhile isOption).length)
  let escapes := options.foldl (fun b c => if c = 'n' then b else c == 'e') false
  let text : Unescaped := if escapes then echoed words.length words else ⟨words, false⟩
  if text.stop || options.contains 'n' then text.text else text.text ++ ['\n']

/-! ### The program `printf` -/

/-- What an escape in a format comes to. -/
inductive Escaped where
  | text (text : Octets)
  /-- All output ends. -/
  | stop
  | wrong (e : Complaint)

/-- A character by its number, where it is no plain one: there is no other in what is written. -/
def characterText (n : Nat) : Octets :=
  if n < 128 then [byteOf n]
  else
    let digits := (Nat.toDigits 16 n).map Char.toUpper
    let width := if n < 65536 then 4 else 8
    ['\\', if n < 65536 then 'u' else 'U'] ++ List.replicate (width - digits.length) '0' ++ digits

/-- A character that is written by a letter and its number in digits. Those that can be written
otherwise, and halves of pairs, have no such names. -/
def character (letter : Char) (cs : Octets) : Escaped × Octets :=
  let length := if letter = 'u' then 4 else 8
  let (digits, rest) := readHex length cs
  let n := (readDigits 16 0 digits).1
  if digits.length < length then (.wrong .noDigits, rest)
  else if (n ≤ 0x9f && n ≠ 0x24 && n ≠ 0x40 && n ≠ 0x60) || (0xd800 ≤ n && n ≤ 0xdfff) then
    (.wrong (.badCharacter (letter :: digits.map Char.toLower)), rest)
  else (.text (characterText n), rest)

/-- What the text after a backslash comes to, and the rest. Before octal digits a zero may be left
out of account. -/
def printedEscape (skipsZero : Bool) (cs : Octets) : Escaped × Octets :=
  match cs with
  | [] => (.text ['\\'], [])
  | c :: rest =>
    if c = 'x' then
      let (digits, rest) := readHex 2 rest
      if digits.isEmpty then (.wrong .noDigits, rest)
      else (.text [byteOf (readDigits 16 0 digits).1], rest)
    else if (octalDigit? c).isSome then
      let (n, rest) := readOctal 3 0 (if skipsZero && c = '0' then rest else cs)
      (.text [byteOf n], rest)
    else if c = 'c' then (.stop, rest)
    else if c = '"' then (.text [c], rest)
    else if c = 'u' || c = 'U' then character c rest
    else
      match letterEscape? c with
      | some d => (.text [d], rest)
      | none => (.text ['\\', c], rest)

end ThreeAddress.Shell.Program
