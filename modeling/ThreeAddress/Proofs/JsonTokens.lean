import ThreeAddress.Json.Token
import ThreeAddress.Json.Writer
import ThreeAddress.Proofs.Pieces
import ThreeAddress.Text.Decimal
import Mathlib.Tactic.IntervalCases

/-!
# Written JSON tokens

What is quoted is read back (`readToken_quote`), whatever characters it has, and so is a number
that is spelled by the grammar of JSON (`IsNumeral.readToken_append`). A number has no end of its
own, so what stands behind it must not continue it (`Stops`).
-/

namespace ThreeAddress.Json

open Text (HeadNot)

section Quoted

variable {c : Char}

theorem hex4?_hexDigitOf : ∀ n < 0x20,
    hex4? '0' '0' (hexDigitOf (n / 16)) (hexDigitOf (n % 16)) = some n := by
  decide

theorem readQuoted_escape {e : Char} (hu : e ≠ 'u') (he : escape? e = some c) (cs : List Char) :
    readQuoted ('\\' :: e :: cs)
      = (readQuoted cs).map fun (ns, rest) => (c.toNat :: ns, rest) := by
  rw [readQuoted, he]
  · cases readQuoted cs <;> rfl
  · exact fun a b c d cs' h => absurd h hu

theorem readQuoted_plain {cs : List Char} (hquote : c ≠ '"') (hescape : c ≠ '\\')
    (hcontrol : ¬ c.toNat < 0x20) :
    readQuoted (c :: cs) = (readQuoted cs).map fun (ns, rest) => (c.toNat :: ns, rest) := by
  rw [readQuoted, if_neg hcontrol]
  · exact hquote
  · exact fun a b c d cs' h => absurd h hescape
  · exact fun e cs' h => absurd h hescape

/-- The step: an escaped character is read as itself. -/
theorem readQuoted_escapeChar (c : Char) (cs : List Char) :
    readQuoted (escapeChar c ++ cs)
      = (readQuoted cs).map fun (ns, rest) => (c.toNat :: ns, rest) := by
  unfold escapeChar
  split
  case h_8 hquote hescape _ _ _ _ _ =>
    split
    · next hcontrol =>
      simp only [List.cons_append, List.nil_append, readQuoted, hex4?_hexDigitOf _ hcontrol]
      cases readQuoted cs <;> rfl
    · next hcontrol => exact readQuoted_plain hquote hescape hcontrol
  all_goals exact readQuoted_escape (by decide) rfl cs

theorem readQuoted_flatMap_escapeChar (cs rest : List Char) :
    readQuoted (cs.flatMap escapeChar ++ '"' :: rest) = some (cs.map Char.toNat, rest) := by
  induction cs with
  | nil => rfl
  | cons c cs ih =>
    rw [List.flatMap_cons, List.append_assoc, readQuoted_escapeChar, ih]
    rfl

theorem not_surrogate (c : Char) :
    isHighSurrogate c.toNat = false ∧ isLowSurrogate c.toNat = false := by
  have hvalid : c.toNat < 0xD800 ∨ 0xDFFF < c.toNat ∧ c.toNat < 0x110000 := c.valid
  simp only [isHighSurrogate, isLowSurrogate, Bool.and_eq_false_iff, decide_eq_false_iff_not]
  omega

theorem joinSurrogates_map_toNat (cs : List Char) :
    joinSurrogates (cs.map Char.toNat) = some cs := by
  induction cs with
  | nil => rfl
  | cons c cs ih =>
    obtain ⟨hhigh, hlow⟩ := not_surrogate c
    cases cs with
    | nil => simp [joinSurrogates, hhigh, hlow]
    | cons d cs =>
      rw [List.map_cons] at ih ⊢
      rw [List.map_cons, joinSurrogates, ih]
      simp [hhigh, hlow]

theorem readToken_quote (s : Quoted) (rest : List Char) :
    readToken ((quote s).toList ++ rest) = some (.string s, rest) := by
  cases s with
  | none => rfl
  | some s =>
    rw [quote, String.toList_ofList, List.cons_append, List.cons_append, List.append_assoc,
      List.singleton_append, readToken, readQuoted_flatMap_escapeChar]
    simp [quotedOf, joinSurrogates_map_toNat]

end Quoted

section Numbers

variable {cs ds rest : List Char}

def IsDigits (cs : List Char) : Prop := cs ≠ [] ∧ ∀ c ∈ cs, c.isDigit = true

inductive IsInteger : List Char → Prop
  | zero : IsInteger ['0']
  | digits {c : Char} {ds : List Char} (hc : c.isDigit = true) (hzero : c ≠ '0')
    (hds : ∀ d ∈ ds, d.isDigit = true) : IsInteger (c :: ds)

inductive IsFraction : List Char → Prop
  | absent : IsFraction []
  | digits {ds : List Char} (h : IsDigits ds) : IsFraction ('.' :: ds)

inductive IsExponent : List Char → Prop
  | absent : IsExponent []
  | digits {mark : Char} {sign ds : List Char} (hmark : mark = 'e' ∨ mark = 'E')
    (hsign : sign ∈ [[], ['+'], ['-']]) (h : IsDigits ds) : IsExponent (mark :: (sign ++ ds))

inductive IsUnsigned : List Char → Prop
  | parts {integer fraction exponent : List Char} (hi : IsInteger integer)
    (hf : IsFraction fraction) (he : IsExponent exponent) :
    IsUnsigned (integer ++ (fraction ++ exponent))

/-- A number as JSON spells it. -/
inductive IsNumeral : List Char → Prop
  | unsigned {cs : List Char} (h : IsUnsigned cs) : IsNumeral cs
  | negative {cs : List Char} (h : IsUnsigned cs) : IsNumeral ('-' :: cs)

/-- The text does not go on with a number. -/
def Stops (cs : List Char) : Prop :=
  HeadNot (fun c => c.isDigit || ['.', 'e', 'E'].contains c) cs

instance (cs : List Char) : Decidable (Stops cs) := inferInstanceAs (Decidable (HeadNot _ cs))

theorem Stops.headNot_isDigit (h : Stops cs) : HeadNot Char.isDigit cs := fun c hc => by
  have := h c hc
  simp_all

theorem spanDigits_append (hds : ∀ d ∈ ds, d.isDigit = true)
    (hrest : HeadNot Char.isDigit rest) : spanDigits (ds ++ rest) = (ds, rest) := by
  rw [spanDigits, Text.takeWhile_append_of_headNot hds hrest, List.dropWhile_append_of_pos hds,
    Text.dropWhile_eq_self hrest]

theorem IsInteger.readInteger_append (h : IsInteger cs) (hrest : HeadNot Char.isDigit rest) :
    readInteger (cs ++ rest) = some (cs, rest) := by
  cases h with
  | zero => rfl
  | @digits c ds hc hzero hds =>
    rw [List.cons_append, readInteger, if_pos hc, spanDigits_append hds hrest]
    exact hzero

theorem IsFraction.readFraction_append (h : IsFraction cs) (hrest : HeadNot Char.isDigit rest)
    (hmark : rest.head? ≠ some '.') : readFraction (cs ++ rest) = some (cs, rest) := by
  cases h with
  | absent =>
    rw [List.nil_append, readFraction]
    rintro cs rfl
    exact hmark rfl
  | @digits ds h =>
    obtain ⟨d, ds, rfl⟩ := List.exists_cons_of_ne_nil h.1
    rw [List.cons_append, readFraction, spanDigits_append h.2 hrest]

theorem IsDigits.digits_append (h : IsDigits ds) (before : List Char)
    (hrest : HeadNot Char.isDigit rest) :
    readExponent.digits before (ds ++ rest) = some (before ++ ds, rest) := by
  obtain ⟨d, ds, rfl⟩ := List.exists_cons_of_ne_nil h.1
  rw [readExponent.digits, spanDigits_append h.2 hrest]

theorem not_isDigit_of_eq {c d : Char} (h : d :: ds = c :: cs) (hc : c.isDigit = false) :
    ¬ d.isDigit = true := by
  rw [(List.cons.inj h).1, hc]
  exact Bool.false_ne_true

theorem IsDigits.signed_append (h : IsDigits ds) (mark : Char) {sign : List Char}
    (hsign : sign ∈ [[], ['+'], ['-']]) (hrest : HeadNot Char.isDigit rest) :
    readExponent.signed mark (sign ++ ds ++ rest) = some (mark :: (sign ++ ds), rest) := by
  obtain ⟨d, ds, rfl⟩ := List.exists_cons_of_ne_nil h.1
  have hd := h.2 d List.mem_cons_self
  simp only [List.mem_cons, List.not_mem_nil, or_false] at hsign
  rcases hsign with rfl | rfl | rfl
  · rw [List.nil_append, List.cons_append, readExponent.signed, ← List.cons_append,
      h.digits_append _ hrest]
    · rfl
    · exact fun _ heq => not_isDigit_of_eq heq (by decide) hd
    · exact fun _ heq => not_isDigit_of_eq heq (by decide) hd
  · exact h.digits_append [mark, '+'] hrest
  · exact h.digits_append [mark, '-'] hrest

theorem IsExponent.readExponent_append (h : IsExponent cs) (hrest : Stops rest) :
    readExponent (cs ++ rest) = some (cs, rest) := by
  cases h with
  | absent =>
    rw [List.nil_append, readExponent]
    · rintro cs rfl
      exact absurd (hrest _ rfl) (by decide)
    · rintro cs rfl
      exact absurd (hrest _ rfl) (by decide)
  | @digits mark sign ds hmark hsign h =>
    rcases hmark with rfl | rfl <;>
      exact h.signed_append _ hsign hrest.headNot_isDigit

theorem IsExponent.headNot_append (h : IsExponent cs) (hrest : Stops rest) :
    HeadNot Char.isDigit (cs ++ rest) ∧ (cs ++ rest).head? ≠ some '.' := by
  cases h with
  | absent =>
    exact ⟨hrest.headNot_isDigit, fun hdot => absurd (hrest _ hdot) (by decide)⟩
  | digits hmark hsign h =>
    rcases hmark with rfl | rfl <;> exact ⟨Text.headNot_cons (by decide) _, by simp⟩

theorem IsFraction.headNot_append (h : IsFraction cs) (hrest : HeadNot Char.isDigit rest) :
    HeadNot Char.isDigit (cs ++ rest) := by
  cases h with
  | absent => exact hrest
  | digits h => exact Text.headNot_cons (by decide) _

theorem IsUnsigned.readUnsigned_append (h : IsUnsigned cs) (hrest : Stops rest) :
    readUnsigned (cs ++ rest) = some (cs, rest) := by
  obtain ⟨hi, hf, he⟩ := h
  obtain ⟨hdigit, hdot⟩ := he.headNot_append hrest
  simp [readUnsigned, List.append_assoc, hi.readInteger_append (hf.headNot_append hdigit),
    hf.readFraction_append hdigit hdot, he.readExponent_append hrest]

/-- A number begins with a digit. -/
theorem IsUnsigned.exists_cons (h : IsUnsigned cs) : ∃ d ds, cs = d :: ds ∧ d.isDigit = true := by
  obtain ⟨hi, hf, he⟩ := h
  cases hi with
  | zero => exact ⟨'0', _, rfl, rfl⟩
  | digits hc hzero hds => exact ⟨_, _, rfl, hc⟩

theorem IsNumeral.exists_cons (h : IsNumeral cs) :
    ∃ c ds, cs = c :: ds ∧ (c.isDigit = true ∨ c = '-') := by
  cases h with
  | unsigned h =>
    obtain ⟨d, ds, rfl, hd⟩ := h.exists_cons
    exact ⟨d, ds, rfl, .inl hd⟩
  | negative h => exact ⟨'-', _, rfl, .inr rfl⟩

theorem IsNumeral.readNumber_append (h : IsNumeral cs) (hrest : Stops rest) :
    readNumber (cs ++ rest) = some (cs, rest) := by
  cases h with
  | unsigned h =>
    obtain ⟨d, ds, rfl, hd⟩ := h.exists_cons
    rw [List.cons_append, readNumber, ← List.cons_append, h.readUnsigned_append hrest]
    exact fun _ heq => not_isDigit_of_eq heq (by decide) hd
  | negative h => rw [List.cons_append, readNumber, h.readUnsigned_append hrest]; rfl

theorem IsNumeral.readToken_append (h : IsNumeral cs) (hrest : Stops rest) :
    readToken (cs ++ rest) = some (.number (.ofList cs), rest) := by
  obtain ⟨c, ds, rfl, hc⟩ := h.exists_cons
  have hnumber := h.readNumber_append hrest
  rw [List.cons_append] at hnumber ⊢
  unfold readToken
  split
  case h_11 => rw [hnumber]; rfl
  all_goals
    next heq =>
    obtain ⟨rfl, -⟩ := List.cons.inj heq
    rcases hc with hc | hc <;> cases hc

theorem head?_toDigits_ne {n : Nat} (h : 0 < n) : (Nat.toDigits 10 n).head? ≠ some '0' := by
  induction n using Nat.strongRecOn with
  | ind n ih =>
    rw [Nat.toDigits_eq_if (by omega)]
    split
    · interval_cases n <;> decide
    · rw [List.head?_append_of_ne_nil _ (List.length_pos_iff.1 Nat.length_toDigits_pos)]
      exact ih (n / 10) (by omega) (by omega)

theorem isNumeral_toDigits (n : Nat) : IsNumeral (Nat.toDigits 10 n) := by
  have hinteger : IsInteger (Nat.toDigits 10 n) := by
    rcases Nat.eq_zero_or_pos n with rfl | hn
    · exact .zero
    obtain ⟨c, ds, hcs⟩ :=
      List.exists_cons_of_length_pos (Nat.length_toDigits_pos (b := 10) (n := n))
    have hdigit : ∀ d ∈ c :: ds, d.isDigit = true := fun d hd =>
      Text.isDigit_of_mem_toDigits (hcs ▸ hd)
    have hzero := head?_toDigits_ne hn
    rw [hcs] at hzero ⊢
    exact .digits (hdigit c List.mem_cons_self) (fun hc => hzero (congrArg some hc))
      fun d hd => hdigit d (List.mem_cons_of_mem c hd)
  simpa using IsNumeral.unsigned (.parts hinteger .absent .absent)

end Numbers

end ThreeAddress.Json
