import ThreeAddress.Shell.WordReader

/-!
# Fields

What expanding a word gives: a text in which quoting is still marked, in parts. A part that came of
an unquoted expansion is split at the separators; one that came of all arguments at once, between
quotes, is split only where an argument ends. The character zero, which no value holds, ends an
argument.
-/

namespace ThreeAddress.Shell

inductive Mark where
  | plain (c : Char)
  /-- A character that stands for itself in a pattern. -/
  | escaped (c : Char)
  /-- A quotation mark, which makes a field of nothing. -/
  | quote
  deriving DecidableEq, Repr

abbrev Marked := List Mark

inductive Splitting where
  | none
  | separators
  | arguments
  deriving DecidableEq, Repr

structure Part where
  splitting : Splitting
  text : Marked

/-- The end of an argument. -/
def argumentEnd : Char := '\x00'

namespace Marked

def ofOctets (cs : Octets) : Marked := cs.map .plain

/-- The text without its marks. -/
def octets (marks : Marked) : Octets :=
  marks.filterMap fun
    | .plain c => some c
    | .escaped c => some c
    | .quote => none

/-- The text as a pattern, in which a backslash escapes the next character. -/
def pattern (marks : Marked) : Octets :=
  go true marks
where
  go (unescaped : Bool) : Marked → Octets
    | [] => []
    | .quote :: ms => go true ms
    | .plain c :: ms => c :: go (c != '\\') ms
    | .escaped c :: ms => (if unescaped then ['\\', c] else [c]) ++ go true ms

/-- Whether the text could stand for file names. -/
def hasWildcard (marks : Marked) : Bool :=
  marks.any fun
    | .plain c => c == '*' || c == '?' || c == '['
    | _ => false

end Marked

/-- The fields so far, the one that has begun, both in reverse, and whether blank separators have
just ended a field. -/
structure Fielding where
  fields : List Marked
  current : Marked
  afterBlank : Bool

namespace Fielding

def start : Fielding := ⟨[], [], false⟩

def add (f : Fielding) (m : Mark) : Fielding :=
  { f with current := m :: f.current, afterBlank := false }

def endField (f : Fielding) (afterBlank : Bool) : Fielding :=
  ⟨f.current.reverse :: f.fields, [], afterBlank⟩

/-- Ends a field at a separator. Blanks count once, and not before the first field. -/
def separate (f : Fielding) (blank : Bool) : Fielding :=
  if f.afterBlank then { f with afterBlank := blank }
  else if f.current.isEmpty && blank then f
  else f.endField blank

def character : Mark → Option Char
  | .plain c => some c
  | .escaped c => some c
  | .quote => none

/-- Reads a mark of a part that is split. After a part that held arguments, blanks are separators
like any other. -/
def read (separators : Octets) (splitting : Splitting) (afterArguments : Bool) (f : Fielding)
    (m : Mark) : Fielding :=
  match character m with
  | none => f.add m
  | some c =>
    if c = argumentEnd || (splitting = .separators && separators.contains c) then
      f.separate (splitting = .separators && !afterArguments &&
        (c = argumentEnd || [' ', '\t', '\n'].contains c))
    else f.add m

def readPart (separators : Octets) (afterArguments : Bool) (f : Fielding) (p : Part) : Fielding :=
  if p.splitting = .none then p.text.foldl add f
  else p.text.foldl (read separators p.splitting afterArguments) { f with afterBlank := false }

end Fielding

/-- The last kind of splitting before each part, from the kind before the first. -/
def withPrevious (before : Splitting) : List Part → List (Splitting × Part)
  | [] => []
  | p :: ps =>
    (before, p) :: withPrevious (if p.splitting = .none then before else p.splitting) ps

/-- The fields of a text. One that has begun counts if anything is in it, or if arguments came
last. -/
def fields (separators : Octets) (parts : List Part) : List Marked :=
  let f := (withPrevious .none parts).foldl
    (fun f (before, p) => f.readPart separators (before = .arguments) p) Fielding.start
  let last := (parts.filter (·.splitting ≠ .none)).getLast?.map (·.splitting)
  if f.current.isEmpty && last ≠ some .arguments then f.fields.reverse
  else (f.endField false).fields.reverse

/-! ### Fields of a line -/

/-- The rest of a line that is the last of the fields to be read. A separator that ends it is left
out if there is none after it but blanks. -/
structure Rest where
  kept : Octets
  /-- What comes after the part that is kept so far, if that may be left out. -/
  doubtful : Option Octets
  afterBlank : Bool

namespace Rest

def add (r : Rest) (c : Char) (isSeparator : Bool) : Rest :=
  let blank := isSeparator && [' ', '\t', '\n'].contains c
  match r.doubtful with
  | none =>
    if blank then ⟨r.kept, some [c], false⟩ else ⟨r.kept ++ [c], none, false⟩
  | some d =>
    if blank then { r with doubtful := some (d ++ [c]) }
    else if isSeparator && r.afterBlank then ⟨r.kept, some (d ++ [c]), false⟩
    else ⟨r.kept ++ d ++ [c], none, false⟩

end Rest

/-- A line being split into a number of fields at most. -/
structure LineSplit where
  left : Nat
  fielding : Fielding
  rest : Option Rest

/-- Reads a character of the line, or one that is escaped. -/
def LineSplit.read (separators : Octets) (s : LineSplit) (m : Mark) : LineSplit :=
  let (c, isSeparator) := match m with
    | .plain c => (c, separators.contains c)
    | .escaped c => (c, false)
    | .quote => (argumentEnd, false)
  match s.rest with
  | some r => { s with rest := some (r.add c isSeparator) }
  | none =>
    let blank := isSeparator && [' ', '\t', '\n'].contains c
    let begins := isSeparator && !s.fielding.afterBlank && !(s.fielding.current.isEmpty && blank)
    if begins && s.left = 1 then
      { s with rest := some ⟨(Marked.octets s.fielding.current.reverse), some [c], blank⟩ }
    else if begins then { s with left := s.left - 1, fielding := s.fielding.endField blank }
    else if isSeparator then { s with fielding := s.fielding.separate blank }
    else { s with fielding := s.fielding.add (.plain c) }

/-- The fields of a line, so many at most. -/
def lineFields (separators : Octets) (count : Nat) (line : Marked) : List Octets :=
  let s := line.foldl (LineSplit.read separators) ⟨count, .start, none⟩
  let last := match s.rest with
    | some r => r.kept
    | none => Marked.octets s.fielding.current.reverse
  (s.fielding.fields.reverse.map Marked.octets) ++ (if last.isEmpty then [] else [last])

end ThreeAddress.Shell
