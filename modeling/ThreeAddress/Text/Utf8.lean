/-!
# Text from bytes

`lossy` reads bytes as UTF-8 one at a time. Bytes that begin a character but do not finish it, and
bytes that begin none, each give one replacement character; what stops a character is read again as
a beginning. So a maximal unfinished beginning is replaced once.
-/

namespace ThreeAddress.Text

def replacement : Char := '\ufffd'

/-- A character begun: the bits so far, the bytes owed, and the range of the next byte. -/
structure Begun where
  bits : Nat
  owed : Nat
  least : Nat
  greatest : Nat

/-- The characters of several bytes, by their first. The range of the second byte keeps out
overlong forms, surrogates and values past the last code point. -/
def Begun.ofLead? (b : Nat) : Option Begun :=
  if 0xC2 ≤ b ∧ b ≤ 0xDF then some ⟨b - 0xC0, 1, 0x80, 0xBF⟩
  else if b = 0xE0 then some ⟨0, 2, 0xA0, 0xBF⟩
  else if b = 0xED then some ⟨0xD, 2, 0x80, 0x9F⟩
  else if 0xE1 ≤ b ∧ b ≤ 0xEF then some ⟨b - 0xE0, 2, 0x80, 0xBF⟩
  else if b = 0xF0 then some ⟨0, 3, 0x90, 0xBF⟩
  else if 0xF1 ≤ b ∧ b ≤ 0xF3 then some ⟨b - 0xF0, 3, 0x80, 0xBF⟩
  else if b = 0xF4 then some ⟨4, 3, 0x80, 0x8F⟩
  else none

/-- Reads a byte where a character may begin. -/
def beginChar (b : Nat) : List Char × Option Begun :=
  if b < 0x80 then ([Char.ofNat b], none)
  else
    match Begun.ofLead? b with
    | some begun => ([], some begun)
    | none => ([replacement], none)

/-- Reads the next byte of a character begun. -/
def Begun.next (begun : Begun) (b : Nat) : List Char × Option Begun :=
  if begun.least ≤ b ∧ b ≤ begun.greatest then
    let bits := begun.bits * 64 + (b - 0x80)
    if begun.owed ≤ 1 then ([Char.ofNat bits], none)
    else ([], some ⟨bits, begun.owed - 1, 0x80, 0xBF⟩)
  else
    let (cs, state) := beginChar b
    (replacement :: cs, state)

def lossyFrom : Option Begun → List UInt8 → List Char
  | none, [] => []
  | some _, [] => [replacement]
  | state, b :: bs =>
    let (cs, state') := (state.elim (beginChar b.toNat) (·.next b.toNat))
    cs ++ lossyFrom state' bs

def lossy (bytes : List UInt8) : String :=
  String.ofList (lossyFrom none bytes)

end ThreeAddress.Text
