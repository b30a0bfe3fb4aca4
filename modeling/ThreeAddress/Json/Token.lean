import ThreeAddress.Json.Value

/-!
# JSON tokens

The tokens of a JSON text in order, with the four blanks between them dropped. `scan` fails where no
token begins; each token takes at least one character, which bounds the scan.
-/

namespace ThreeAddress.Json

inductive Token where
  | leftBrace
  | rightBrace
  | leftBracket
  | rightBracket
  | comma
  | colon
  | null
  | bool (b : Bool)
  | number (lexeme : String)
  | string (s : Quoted)
  deriving DecidableEq, Repr

/-! ### Quoted strings -/

def isHighSurrogate (n : Nat) : Bool := 0xD800 ≤ n && n < 0xDC00

def isLowSurrogate (n : Nat) : Bool := 0xDC00 ≤ n && n < 0xE000

def hexDigit? (c : Char) : Option Nat :=
  if '0' ≤ c ∧ c ≤ '9' then some (c.toNat - '0'.toNat)
  else if 'a' ≤ c ∧ c ≤ 'f' then some (c.toNat - 'a'.toNat + 10)
  else if 'A' ≤ c ∧ c ≤ 'F' then some (c.toNat - 'A'.toNat + 10)
  else none

def hex4? (a b c d : Char) : Option Nat := do
  return (((← hexDigit? a) * 16 + (← hexDigit? b)) * 16 + (← hexDigit? c)) * 16 + (← hexDigit? d)

/-- What a backslash before the character stands for. -/
def escape? : Char → Option Char
  | '"' => some '"'
  | '\\' => some '\\'
  | '/' => some '/'
  | 'b' => some '\x08'
  | 'f' => some '\x0c'
  | 'n' => some '\n'
  | 'r' => some '\r'
  | 't' => some '\t'
  | _ => none

/-- Reads up to the closing quote and gives code points, among which escapes may have put
surrogates, and what comes after the quote. Control characters must be escaped. -/
def readQuoted : List Char → Option (List Nat × List Char)
  | [] => none
  | '"' :: cs => some ([], cs)
  | '\\' :: 'u' :: a :: b :: c :: d :: cs =>
    match hex4? a b c d, readQuoted cs with
    | some n, some (ns, rest) => some (n :: ns, rest)
    | _, _ => none
  | '\\' :: e :: cs =>
    match escape? e, readQuoted cs with
    | some c, some (ns, rest) => some (c.toNat :: ns, rest)
    | _, _ => none
  | c :: cs =>
    if c.toNat < 0x20 then none
    else (readQuoted cs).map fun (ns, rest) => (c.toNat :: ns, rest)

/-- A high surrogate and the low one after it are one character; no other surrogate is any. -/
def joinSurrogates : List Nat → Option (List Char)
  | [] => some []
  | [n] =>
    if isHighSurrogate n || isLowSurrogate n then none else some [Char.ofNat n]
  | m :: n :: ns =>
    if isHighSurrogate m && isLowSurrogate n then
      (joinSurrogates ns).map (Char.ofNat (0x10000 + (m - 0xD800) * 0x400 + (n - 0xDC00)) :: ·)
    else if isHighSurrogate m || isLowSurrogate m then none
    else (joinSurrogates (n :: ns)).map (Char.ofNat m :: ·)

def quotedOf (ns : List Nat) : Quoted :=
  (joinSurrogates ns).map String.ofList

theorem length_readQuoted {cs rest : List Char} {ns : List Nat}
    (h : readQuoted cs = some (ns, rest)) : rest.length < cs.length := by
  fun_induction readQuoted cs generalizing ns rest with
  | case1 => simp at h
  | case2 cs => simp_all
  | case3 a b c d cs n ns' rest' _ _ ih =>
    obtain ⟨-, rfl⟩ := by simpa using h
    have := ih ‹_›
    simp only [List.length_cons]
    omega
  | case4 => simp at h
  | case5 e cs _ c ns' rest' _ _ ih =>
    obtain ⟨-, rfl⟩ := by simpa using h
    have := ih ‹_›
    simp only [List.length_cons]
    omega
  | case6 => simp at h
  | case7 => simp at h
  | case8 c cs _ _ _ _ ih =>
    obtain ⟨⟨ns', rest'⟩, hr, he⟩ := Option.map_eq_some_iff.1 h
    obtain ⟨-, rfl⟩ := by simpa using he
    have := ih hr
    simp only [List.length_cons]
    omega

/-! ### Numbers -/

/-- The digits that a text begins with, and the rest. -/
def spanDigits (cs : List Char) : List Char × List Char :=
  (cs.takeWhile Char.isDigit, cs.dropWhile Char.isDigit)

/-- No zero leads another digit. -/
def readInteger : List Char → Option (List Char × List Char)
  | '0' :: cs => some (['0'], cs)
  | c :: cs =>
    if c.isDigit then
      let (ds, rest) := spanDigits cs
      some (c :: ds, rest)
    else none
  | [] => none

/-- A mark with the digits after it, at least one; nothing if the mark does not come. -/
def readFraction : List Char → Option (List Char × List Char)
  | '.' :: cs =>
    match spanDigits cs with
    | ([], _) => none
    | (ds, rest) => some ('.' :: ds, rest)
  | cs => some ([], cs)

def readExponent : List Char → Option (List Char × List Char)
  | 'e' :: cs => signed 'e' cs
  | 'E' :: cs => signed 'E' cs
  | cs => some ([], cs)
where
  signed (mark : Char) : List Char → Option (List Char × List Char)
    | '+' :: cs => digits [mark, '+'] cs
    | '-' :: cs => digits [mark, '-'] cs
    | cs => digits [mark] cs
  digits (before cs : List Char) : Option (List Char × List Char) :=
    match spanDigits cs with
    | ([], _) => none
    | (ds, rest) => some (before ++ ds, rest)

def readUnsigned (cs : List Char) : Option (List Char × List Char) := do
  let (integer, cs) ← readInteger cs
  let (fraction, cs) ← readFraction cs
  let (exponent, cs) ← readExponent cs
  return (integer ++ fraction ++ exponent, cs)

def readNumber : List Char → Option (List Char × List Char)
  | '-' :: cs => (readUnsigned cs).map fun (lexeme, rest) => ('-' :: lexeme, rest)
  | cs => readUnsigned cs

theorem length_dropWhile_le (p : Char → Bool) (cs : List Char) :
    (cs.dropWhile p).length ≤ cs.length :=
  (List.dropWhile_sublist p).length_le

theorem length_readInteger {cs ds rest : List Char} (h : readInteger cs = some (ds, rest)) :
    rest.length < cs.length := by
  unfold readInteger at h
  split at h
  · simp_all
  · next c tail _ =>
    split at h
    · simp only [spanDigits, Option.some.injEq, Prod.mk.injEq] at h
      have := length_dropWhile_le Char.isDigit tail
      rw [h.2] at this
      simp only [List.length_cons]
      omega
    · simp at h
  · simp at h

theorem length_of_spanDigits {cs ds rest : List Char} (h : spanDigits cs = (ds, rest)) :
    rest.length ≤ cs.length := by
  simp only [spanDigits, Prod.mk.injEq] at h
  exact h.2 ▸ length_dropWhile_le Char.isDigit cs

theorem length_readFraction {cs ds rest : List Char} (h : readFraction cs = some (ds, rest)) :
    rest.length ≤ cs.length := by
  unfold readFraction at h
  split at h
  · split at h
    · simp at h
    · next hs =>
      simp only [Option.some.injEq, Prod.mk.injEq] at h
      exact Nat.le_succ_of_le (h.2 ▸ length_of_spanDigits hs)
  · simp_all

theorem length_digits {before cs ds rest : List Char}
    (h : readExponent.digits before cs = some (ds, rest)) : rest.length ≤ cs.length := by
  unfold readExponent.digits at h
  split at h
  · simp at h
  · next hs =>
    simp only [Option.some.injEq, Prod.mk.injEq] at h
    exact h.2 ▸ length_of_spanDigits hs

theorem length_signed {mark : Char} {cs ds rest : List Char}
    (h : readExponent.signed mark cs = some (ds, rest)) : rest.length ≤ cs.length := by
  unfold readExponent.signed at h
  split at h
  · exact Nat.le_succ_of_le (length_digits h)
  · exact Nat.le_succ_of_le (length_digits h)
  · exact length_digits h

theorem length_readExponent {cs ds rest : List Char} (h : readExponent cs = some (ds, rest)) :
    rest.length ≤ cs.length := by
  unfold readExponent at h
  split at h
  · exact Nat.le_succ_of_le (length_signed h)
  · exact Nat.le_succ_of_le (length_signed h)
  · simp_all

theorem length_readUnsigned {cs ds rest : List Char} (h : readUnsigned cs = some (ds, rest)) :
    rest.length < cs.length := by
  simp only [readUnsigned, Option.bind_eq_bind, Option.bind_eq_some_iff, Prod.exists,
    Option.pure_def, Option.some.injEq, Prod.mk.injEq] at h
  obtain ⟨_, _, h1, _, _, h2, _, _, h3, _, rfl⟩ := h
  have := length_readInteger h1
  have := length_readFraction h2
  have := length_readExponent h3
  omega

theorem length_readNumber {cs ds rest : List Char} (h : readNumber cs = some (ds, rest)) :
    rest.length < cs.length := by
  unfold readNumber at h
  split at h
  · obtain ⟨⟨ds', rest'⟩, hr, he⟩ := Option.map_eq_some_iff.1 h
    obtain ⟨-, rfl⟩ := by simpa using he
    have := length_readUnsigned hr
    simp only [List.length_cons]
    omega
  · exact length_readUnsigned h

/-! ### The scan -/

def isSpace (c : Char) : Bool := c == ' ' || c == '\t' || c == '\n' || c == '\r'

/-- The token that a text begins with, and the rest. -/
def readToken : List Char → Option (Token × List Char)
  | '\x7b' :: cs => some (.leftBrace, cs)
  | '\x7d' :: cs => some (.rightBrace, cs)
  | '[' :: cs => some (.leftBracket, cs)
  | ']' :: cs => some (.rightBracket, cs)
  | ',' :: cs => some (.comma, cs)
  | ':' :: cs => some (.colon, cs)
  | 'n' :: 'u' :: 'l' :: 'l' :: cs => some (.null, cs)
  | 't' :: 'r' :: 'u' :: 'e' :: cs => some (.bool true, cs)
  | 'f' :: 'a' :: 'l' :: 's' :: 'e' :: cs => some (.bool false, cs)
  | '"' :: cs => (readQuoted cs).map fun (ns, rest) => (.string (quotedOf ns), rest)
  | cs => (readNumber cs).map fun (lexeme, rest) => (.number (String.ofList lexeme), rest)

theorem length_readToken {cs rest : List Char} {t : Token} (h : readToken cs = some (t, rest)) :
    rest.length < cs.length := by
  unfold readToken at h
  split at h
  case h_10 =>
    obtain ⟨⟨ns, rest'⟩, hr, he⟩ := Option.map_eq_some_iff.1 h
    obtain ⟨-, rfl⟩ := by simpa using he
    have := length_readQuoted hr
    simp only [List.length_cons]
    omega
  case h_11 =>
    obtain ⟨⟨ds, rest'⟩, hr, he⟩ := Option.map_eq_some_iff.1 h
    obtain ⟨-, rfl⟩ := by simpa using he
    exact length_readNumber hr
  all_goals
    obtain ⟨-, rfl⟩ := by simpa using h
    simp only [List.length_cons]
    omega

def scan (cs : List Char) : Option (List Token) :=
  match cs with
  | [] => some []
  | c :: rest =>
    if isSpace c then scan rest
    else
      match _h : readToken (c :: rest) with
      | none => none
      | some (t, after) => (scan after).map (t :: ·)
termination_by cs.length
decreasing_by
  · simp
  · exact length_readToken _h

end ThreeAddress.Json
