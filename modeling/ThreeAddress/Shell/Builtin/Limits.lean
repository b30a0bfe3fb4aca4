import ThreeAddress.Shell.Builtin.Basic
import ThreeAddress.Shell.Escape

/-!
# Permissions and limits
-/

namespace ThreeAddress.Shell.Builtin

open Files (Access)

variable {m : Type → Type} [Monad m] [Access m]

/-! ### The mask of permissions -/

def fullMask : Nat := 0o777

/-- Permissions in letters, for who owns a file, for the group, and for all others. -/
def maskLetters (granted : Nat) : Octets :=
  let letters (i : Nat) : Octets :=
    [('r', 8), ('w', 7), ('x', 6)].flatMap fun (c, bit) =>
      if granted.testBit (bit - 3 * i) then [c] else []
  List.intercalate [','] (['u', 'g', 'o'].zipIdx.map fun (who, i) => who :: '=' :: letters i)

/-- The bit that each of those has whom a letter stands for. -/
def holders : Char → Nat
  | 'a' => 0o111
  | 'u' => 0o100
  | 'g' => 0o010
  | 'o' => 0o001
  | _ => 0

/-- The permissions that a letter stands for, where some are granted already. -/
def permissions (granted : Nat) : Char → Nat
  | 'r' => 4
  | 'w' => 2
  | 'x' => 1
  | 'u' => granted / 64
  | 'g' => granted / 8
  | 'o' => granted
  | 'X' => if granted &&& 0o111 = 0 then 0 else 1
  | _ => 0

/-- Changes permissions as a text says; nothing if it cannot be read. -/
def applyMode (granted : Nat) : Nat → Nat → Nat → Octets → Option Nat
  | 0, _, _, _ => none
  | _ + 1, _, result, [] => some result
  | fuel + 1, who, result, cs =>
    let named := cs.takeWhile "augo".toList.contains
    let who := named.foldl (fun bits c => bits ||| holders c) who
    let who := if who = 0 then 0o111 else who
    match cs.drop named.length with
    | [] => none
    | op :: rest =>
      if !"=+-".toList.contains op then none
      else
        let letters := rest.takeWhile "rwxugoXs".toList.contains
        let value := letters.foldl (fun bits c => bits ||| permissions granted c) 0
        let value := (value &&& 7) * who
        let result := match op with
          | '-' => result &&& (fullMask - value)
          | '=' => value ||| (result &&& (fullMask - who * 7))
          | _ => result ||| value
        match rest.drop letters.length with
        | ',' :: rest => applyMode granted fuel 0 result rest
        | rest => applyMode granted fuel who result rest

/-- An octal number, of which the lower bits count. -/
def octal? (text : Octets) : Option Nat :=
  if text.all fun c => (octalDigit? c).isSome then
    some (Nat.ofDigitChars 8 text 0 % (fullMask + 1))
  else none

def umask (arguments : List Octets) : Eff m Nat := do
  let (options, operands) ← takeOptions ['S'] arguments
  let mask := (← context).mask
  let digits := Nat.toDigits 8 mask
  match operands with
  | [] =>
    if options.isEmpty then line (List.replicate (4 - digits.length) '0' ++ digits)
    else line (maskLetters (fullMask - mask))
  | text :: _ => do
    let mask ←
      if text.head?.any Char.isDigit then
        match octal? text with
        | some mask => pure mask
        | none => fail (.badNumber text)
      else
        match applyMode (fullMask - mask) (text.length + 1) 0 (fullMask - mask) text with
        | some granted => pure (fullMask - granted)
        | none => fail (.badMode text)
    change ({ · with mask })
    return 0

/-! ### Limits -/

/-- The limits by their letters: what they are about, and how much there is if nothing is said. -/
def limitNames : List (Char × String) :=
  [('t', "time(seconds)"), ('f', "file(blocks)"), ('d', "data(kbytes)"), ('s', "stack(kbytes)"),
    ('c', "coredump(blocks)"), ('m', "memory(kbytes)"), ('l', "locked memory(kbytes)"),
    ('p', "process"), ('n', "nofiles"), ('v', "vmemory(kbytes)"), ('w', "locks"), ('r', "rtprio")]

def unlimited : Octets := "unlimited".toList

def limitOf (letter : Char) : Eff m Octets := do
  match (← context).limits.lookup letter, letter with
  | some limit, _ => return limit
  | none, 's' => return "8192".toList
  | none, 'n' => return "1048576".toList
  | none, 'r' => return ['0']
  | none, _ => return unlimited

def ulimit (arguments : List Octets) : Eff m Nat := do
  let (options, operands) ← takeOptions ("HSa".toList ++ limitNames.map (·.1)) arguments
  let isAll := options.contains 'a'
  let letter := ((options.filter fun c => !"HSa".toList.contains c).getLast?).getD 'f'
  match operands with
  | [] =>
    if isAll then
      let lines ← limitNames.mapM fun (c, name) => do
        let before := name ++ String.ofList (List.replicate (20 - name.length) ' ') ++ " "
        return before.toList ++ (← limitOf c) ++ ['\n']
      print lines.flatten
    else line (← limitOf letter)
  | [text] => do
    if isAll then fail .tooManyArguments
    if text ≠ unlimited && !text.all Char.isDigit then fail .noLimit
    let value := if text = unlimited then text else natOctets (Nat.ofDigitChars 10 text 0)
    change fun c => { c with limits := (letter, value) :: c.limits.filter (·.1 != letter) }
    return 0
  | _ => fail .tooManyArguments

/-- The time that the shell and the programs it ran have taken, which is hardly any. -/
def times : Eff m Nat := do
  let none' := "0m0.000000s 0m0.000000s\n".toList
  print (none' ++ none')

end ThreeAddress.Shell.Builtin
