/-!
# Decimal numerals

Reading accepts one or more ASCII digits and nothing else; leading zeros carry no weight.
-/

namespace ThreeAddress.Text

def isNumeral (cs : List Char) : Bool :=
  !cs.isEmpty && cs.all Char.isDigit

def readNumeral? (cs : List Char) : Option Nat :=
  if isNumeral cs then some (Nat.ofDigitChars 10 cs 0) else none

theorem isDigit_of_mem_toDigits {n : Nat} {c : Char} (h : c ∈ Nat.toDigits 10 n) :
    c.isDigit = true :=
  Nat.isDigit_of_mem_toDigits (by omega) (by omega) h

theorem readNumeral?_toDigits (n : Nat) : readNumeral? (Nat.toDigits 10 n) = some n := by
  have hne : Nat.toDigits 10 n ≠ [] := by
    intro h
    have := Nat.ofDigitChars_toDigits (b := 10) (n := n) (by omega) (by omega)
    have hl := Nat.length_toDigits_pos (b := 10) (n := n)
    simp [h] at hl
  have hd : (Nat.toDigits 10 n).all Char.isDigit = true := by
    simpa using fun c => isDigit_of_mem_toDigits
  simp [readNumeral?, isNumeral, hne, hd, Nat.ofDigitChars_toDigits]

theorem toDigits_inj {m n : Nat} : Nat.toDigits 10 m = Nat.toDigits 10 n ↔ m = n := by
  refine ⟨fun h => ?_, fun h => h ▸ rfl⟩
  have hread := congrArg readNumeral? h
  simpa [readNumeral?_toDigits] using hread

theorem toString_inj {m n : Nat} : toString m = toString n ↔ m = n := by
  rw [← toDigits_inj, Nat.toString_eq_ofList_toDigits, Nat.toString_eq_ofList_toDigits,
    String.ofList_inj]

end ThreeAddress.Text
