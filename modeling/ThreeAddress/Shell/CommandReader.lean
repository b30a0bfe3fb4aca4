import ThreeAddress.Shell.WordReader

/-!
# Reading commands

Lists of commands are joined by `;`, `&` and newlines; a list is made of pipelines joined by `&&`
and `||`, a pipeline of commands. Reading is by descent: how nested lists are read is a parameter of
each rule, and `Reader.commands` ties the knot, a text being no deeper than it is long.
-/

namespace ThreeAddress.Shell

/-- What is read as nested commands. -/
inductive Extent where
  /-- One line, at the outermost level. -/
  | line
  /-- A list up to a word or sign that cannot begin a command. -/
  | block
  /-- The same, where there may be none. -/
  | branch
  /-- One command alone. -/
  | single
  deriving DecidableEq, Repr

abbrev Nested := Extent → Reader (Option Command)

namespace Reader

variable (nested : Nested)

def nextToken : Reader Token := token (nested .branch)

/-- The next token, which must be the one given. -/
def expect (t : String) : Reader Unit := do
  if (← nextToken nested) ≠ .fixed t then refuse (some (.fixed t))

/-! ### Redirections -/

/-- The characters of a word that stand for themselves. -/
def literal (w : Word) : Octets :=
  w.filterMap fun
    | .char c => some c
    | .escaped c => some c
    | _ => none

/-- Reads what follows the sign of a redirection. -/
def redirection : Reader Redirection := do
  let sign := (← get).sign
  match sign with
  | .document .. => look .mark
  | _ => pure ()
  if (← nextToken nested) ≠ .word then refuse none
  let s ← get
  match sign with
  | .file fd opening => return .file fd opening s.word
  | .duplicate fd => return .duplicate fd s.word
  | .document fd strip =>
    let a : Awaited := ⟨s.nextDocument, literal s.word, strip, s.quoted⟩
    set { s with awaited := s.awaited ++ [a], nextDocument := s.nextDocument + 1 }
    return .document fd a.number

/-- Reads the redirections after a compound command. -/
def redirections : Reader (List Redirection) := do
  look .reservedWord
  repeated (fun rs => do
    if (← nextToken nested) = .redirection then return .inl (rs ++ [← redirection nested])
    else do
      putTokenBack
      return .inr rs) []

/-! ### Simple commands and functions -/

structure Parts where
  assignments : List Word
  words : List Word
  redirections : List Redirection

/-- Reads a function after its name and an opening parenthesis. -/
def function (name : Word) : Reader Command := do
  expect nested ")"
  match name.plain? with
  | none => throw .badFunctionName
  | some name =>
    if !isName name || specialNames.contains (String.ofList name) then throw .badFunctionName
    look .command
    match ← nested .single with
    | some body => return .function name body
    | none => refuse none

def simple : Reader Command := do
  let line := (← get).line
  repeated (fun (parts : Parts) => do
    if parts.words.isEmpty then look .name
    match ← nextToken nested with
    | .word => do
      let w := (← get).word
      if parts.words.isEmpty && w.assignment?.isSome then
        return .inl { parts with assignments := parts.assignments ++ [w] }
      else return .inl { parts with words := parts.words ++ [w] }
    | .redirection => do
      return .inl { parts with redirections := parts.redirections ++ [← redirection nested] }
    | t => do
      match t, parts with
      | .fixed "(", ⟨[], [name], []⟩ => return .inr (← function nested name)
      | _, _ => do
        putTokenBack
        return .inr (.simple line parts.assignments parts.words parts.redirections)) ⟨[], [], []⟩

/-! ### Compound commands -/

/-- Reads conditions and what they lead to, up to the end of the conditional. -/
def conditional : Reader Command := do
  let (clauses, last) ← repeated (fun clauses => do
    let test ← nested .block
    expect nested "then"
    let part ← nested .block
    let clauses := clauses ++ [(test, part)]
    match ← nextToken nested with
    | .fixed "elif" => return .inl clauses
    | .fixed "else" => return .inr (clauses, ← nested .block)
    | _ => do
      putTokenBack
      return .inr (clauses, none)) []
  expect nested "fi"
  match clauses.foldr (fun (test, part) no => some (.conditional test part no)) last with
  | some c => return c
  | none => refuse none

def loop (wanted : Bool) : Reader Command := do
  let test ← nested .block
  expect nested "do"
  let body ← nested .block
  expect nested "done"
  return .loop wanted test body

/-- All arguments, each a word of its own. -/
def allArguments : Word := [.quote, .parameter ['@'] .value false [], .quote]

def loopWords : Reader (List Word) := do
  look .command
  match ← nextToken nested with
  | .fixed "in" => do
    let words ← repeated (fun ws => do
      if (← nextToken nested) = .word then return .inl (ws ++ [(← get).word])
      else return .inr ws) []
    let last := (← get).last
    if last ≠ .newline && last ≠ .fixed ";" then refuse none
    return words
  | t => do
    if t ≠ .fixed ";" then putTokenBack
    return [allArguments]

def forEach (line : Nat) : Reader Command := do
  let t ← nextToken nested
  let s ← get
  match t, s.word.plain? with
  | .word, some name => do
    if s.quoted || !isName name then throw .badLoopVariable
    let words ← loopWords nested
    look .command
    expect nested "do"
    let body ← nested .block
    expect nested "done"
    return .forEach line name words body
  | _, _ => throw .badLoopVariable

/-- Reads the patterns of a branch, the first of which has been read. -/
def patterns : Reader (List Word) :=
  repeated (fun ws => do
    let ws := ws ++ [(← get).word]
    if (← nextToken nested) = .fixed "|" then do
      let _ ← nextToken nested
      return .inl ws
    else return .inr ws) []

def branches : Reader (List Branch) :=
  repeated (fun bs => do
    look .branch
    let t ← nextToken nested
    if t = .fixed "esac" then return .inr bs
    else do
      if t = .fixed "(" then
        let _ ← nextToken nested
      let ps ← patterns nested
      if (← get).last ≠ .fixed ")" then refuse (some (.fixed ")"))
      let bs := bs ++ [(ps, ← nested .branch)]
      look .branch
      match ← nextToken nested with
      | .fixed "esac" => return .inr bs
      | .fixed ";;" => return .inl bs
      | _ => refuse (some (.fixed ";;"))) []

def choice (line : Nat) : Reader Command := do
  if (← nextToken nested) ≠ .word then refuse (some .word)
  let subject := (← get).word
  look .command
  expect nested "in"
  return .choice line subject (← branches nested)

def withRedirections (line : Nat) (c : Command) : Reader Command := do
  match ← redirections nested with
  | [] => return c
  | rs => return .redirected line (some c) rs

def group (line : Nat) : Reader Command := do
  let body ← nested .block
  expect nested "\x7d"
  match body with
  | some c => withRedirections nested line c
  | none => refuse none

def subshell (line : Nat) : Reader Command := do
  let body ← nested .block
  expect nested ")"
  return .subshell line body (← redirections nested)

def command : Reader Command := do
  let line := (← get).line
  match ← nextToken nested with
  | .fixed "if" => withRedirections nested line (← conditional nested)
  | .fixed "while" => withRedirections nested line (← loop nested true)
  | .fixed "until" => withRedirections nested line (← loop nested false)
  | .fixed "for" => withRedirections nested line (← forEach nested line)
  | .fixed "case" => withRedirections nested line (← choice nested line)
  | .fixed "(" => subshell nested line
  | .fixed "\x7b" => group nested line
  | .word => do
    putTokenBack
    simple nested
  | .redirection => do
    putTokenBack
    simple nested
  | _ => refuse none

/-! ### Lists -/

def pipeline : Reader Command := do
  let negated := (← nextToken nested) = .fixed "!"
  if negated then look .reservedWord else putTokenBack
  let first ← command nested
  let stages ← repeated (fun stages => do
    if (← nextToken nested) = .fixed "|" then do
      look .command
      return .inl (stages ++ [← command nested])
    else do
      putTokenBack
      return .inr stages) [first]
  let c := if stages.length = 1 then first else .pipeline stages
  return if negated then .negation c else c

def andOr : Reader Command := do
  let first ← pipeline nested
  repeated (fun c => do
    match ← nextToken nested with
    | .fixed "&&" => do
      look .command
      return .inl (.both c (← pipeline nested))
    | .fixed "||" => do
      look .command
      return .inl (.either c (← pipeline nested))
    | _ => do
      putTokenBack
      return .inr c) first

/-- One command of a list with the sign after it, or the end of the list. -/
def listStep (extent : Extent) (c : Option Command) :
    Reader (Option Command ⊕ Option Command) := do
  look (if extent = .line then .reservedWord else .command)
  match ← nextToken nested with
  | .newline => do
    readDocuments (nested .branch)
    return .inr c
  | .endOfFile => atEnd c
  | t => do
    putTokenBack
    if t.endsList && (extent = .branch || (extent = .block && c.isSome)) then return .inr c
    let next ← andOr nested
    let after ← nextToken nested
    let next := if after = .fixed "&" then .background next else next
    let c := some (c.elim next (.sequence · next))
    match after with
    | .endOfFile => atEnd c
    | .newline => do
      putTokenBack
      return .inl c
    | .fixed ";" => return .inl c
    | .fixed "&" => return .inl c
    | _ => do
      if extent = .line then refuse none
      putTokenBack
      return .inr c
where
  atEnd (c : Option Command) : Reader (Option Command ⊕ Option Command) := do
    readDocuments (nested .branch)
    modify fun s => { s with last := .endOfFile, again := true }
    return .inr c

def ofExtent : Extent → Reader (Option Command)
  | .single => some <$> command nested
  | extent => repeated (listStep nested extent) none

def commands : Nat → Nested
  | 0 => fun _ => throw .tooDeep
  | fuel + 1 => ofExtent (commands fuel)

/-- Reads a line of commands, and more lines if they belong to it. There is nothing at the end of
the text and on an empty line. -/
def line : Reader (Option Command) := do
  modify fun s => { s with again := false, lookout := .none, awaited := [] }
  commands (← get).bound .line

end Reader

end ThreeAddress.Shell
