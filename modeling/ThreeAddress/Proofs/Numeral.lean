import ThreeAddress.Assembly.Machine

/-!
# Numerals in bytes

The decimal numeral of a word, as bytes. Its last byte is the digit of the remainder by ten, and
the others are the numeral of the quotient, if that is not zero (`numeral_eq`). Twenty bytes are
enough for every word (`length_numeral_le`).
-/

namespace ThreeAddress.Assembly

/-- The unsigned decimal numeral of a word, without leading zeros. -/
def numeral (w : Word) : List Byte :=
  (Nat.toDigits 10 w.toNat).map fun c => .ofNat 8 c.toNat

/-- The last digit of a word's numeral. -/
def lastDigit (w : Word) : Byte :=
  .ofNat 8 (48 + w.toNat % 10)

theorem div_ten_eq_zero {w : Word} : w / 10 = 0 ↔ w.toNat < 10 := by
  rw [← BitVec.toNat_inj, BitVec.toNat_udiv]
  show w.toNat / 10 = 0 ↔ _
  omega

theorem numeral_eq (w : Word) :
    numeral w = (if w / 10 = 0 then [] else numeral (w / 10)) ++ [lastDigit w] := by
  have hdigit := Nat.toNat_digitChar_of_lt_ten (Nat.mod_lt w.toNat (by omega : 0 < 10))
  rw [numeral, Nat.toDigits_eq_if (by omega)]
  split
  · next h =>
    rw [if_pos (div_ten_eq_zero.2 h), lastDigit, ← hdigit, Nat.mod_eq_of_lt h]
    rfl
  · next h =>
    rw [if_neg (mt div_ten_eq_zero.1 h), List.map_append, numeral, lastDigit, ← hdigit,
      BitVec.toNat_udiv]
    rfl

theorem length_numeral_pos (w : Word) : 0 < (numeral w).length := by
  rw [numeral, List.length_map]
  exact Nat.length_toDigits_pos

theorem length_numeral_le (w : Word) : (numeral w).length ≤ 20 := by
  rw [numeral, List.length_map, Nat.length_toDigits_le_iff (by omega) (by omega)]
  have := w.isLt
  omega

/-- The greatest word needs all twenty bytes. -/
example : (numeral (-1)).length = 20 := by decide

end ThreeAddress.Assembly
