import ThreeAddress.Shell.Command

/-!
# Reading a script's source

The state of a reader, and what it does with single characters and tokens. A backslash before a
newline is no character at all, except between single quotes. A word that was put back is looked at
anew, since only its place decides whether it is a reserved word.
-/

namespace ThreeAddress.Shell

inductive Token where
  | endOfFile
  | newline
  | redirection
  | word
  /-- An operator or a reserved word. -/
  | fixed (text : String)
  deriving DecidableEq, Repr

namespace Token

def text : Token → String
  | .endOfFile => "end of file"
  | .newline => "newline"
  | .redirection => "redirection"
  | .word => "word"
  | .fixed t => "\"" ++ t ++ "\""

/-- The tokens before which a list of commands ends. -/
def endsList (t : Token) : Bool :=
  match t with
  | .endOfFile => true
  | .fixed t => [")", ";;", "do", "done", "elif", "else", "esac", "fi", "then", "\x7d"].contains t
  | _ => false

end Token

def reservedWords : List String :=
  ["!", "case", "do", "done", "elif", "else", "esac", "fi", "for", "if", "in", "then", "until",
    "while", "\x7b", "\x7d"]

inductive Misreading where
  | unexpected (found : Token) (wanted : Option Token)
  | unterminatedQuote
  | unclosedParameter
  | unclosedArithmetic
  | unclosedBackquote
  | badLoopVariable
  | badFunctionName
  | tooDeep
  deriving DecidableEq, Repr

def Misreading.text : Misreading → String
  | .unexpected found none => found.text ++ " unexpected"
  | .unexpected found (some wanted) =>
    found.text ++ " unexpected (expecting " ++ wanted.text ++ ")"
  | .unterminatedQuote => "Unterminated quoted string"
  | .unclosedParameter => "Missing '\x7d'"
  | .unclosedArithmetic => "Missing '))'"
  | .unclosedBackquote => "EOF in backquote substitution"
  | .badLoopVariable => "Bad for loop variable"
  | .badFunctionName => "Bad function name"
  | .tooDeep => "nested too deeply"

/-- A redirection whose target has not been read. -/
inductive RedirectionSign where
  | file (fd : Nat) (opening : Opening)
  | duplicate (fd : Nat)
  | document (fd : Nat) (strip : Bool)

/-- A here-document whose text has not been read. -/
structure Awaited where
  number : Nat
  mark : Octets
  /-- Whether tabs at the start of a line are left out. -/
  strip : Bool
  literal : Bool

/-- What is looked for in front of and in the next token. -/
structure Lookout where
  skipNewlines : Bool
  reserved : Bool
  aliases : Bool
  /-- The word ends a here-document: nothing is expanded in it. -/
  endMark : Bool

namespace Lookout

def none : Lookout := ⟨false, false, false, false⟩

def reservedWord : Lookout := ⟨false, true, true, false⟩

/-- Before a command that must come. -/
def command : Lookout := ⟨true, true, true, false⟩

/-- Before a word of a simple command that may be its name. -/
def name : Lookout := ⟨false, false, true, false⟩

/-- Where a branch may begin or a choice end. -/
def branch : Lookout := ⟨true, true, false, false⟩

/-- Before the word that ends a here-document. -/
def mark : Lookout := ⟨false, false, false, true⟩

end Lookout

/-- An alias whose value is being read. -/
structure Replacing where
  name : Octets
  /-- How much is left to be read after the value. -/
  after : Nat
  /-- Whether the value ends in a blank, so that the word after it may be an alias too. -/
  endsBlank : Bool

structure Source where
  rest : Octets
  /-- The words that stand for texts. -/
  aliases : List (Octets × Octets)
  /-- The aliases whose values are being read, or whose last word was read last. -/
  replacing : List Replacing
  line : Nat
  lookout : Lookout
  last : Token
  /-- Whether the last token is to be read again. -/
  again : Bool
  word : Word
  /-- Whether any of the word is quoted. -/
  quoted : Bool
  sign : RedirectionSign
  awaited : List Awaited
  /-- The number of the next here-document. -/
  nextDocument : Nat
  documents : List (Nat × Word)

namespace Source

/-- The source of a text. Its here-documents are numbered from the number given. -/
def ofText (text : Octets) (nextDocument : Nat) : Source :=
  { rest := text, aliases := [], replacing := [], line := 1, lookout := .none, last := .newline
    again := false, word := [], quoted := false, sign := .duplicate 0, awaited := [], nextDocument, documents := [] }

/-- More than what is left can become by aliases, each of which is used once in its own value at
most. -/
def bound (s : Source) : Nat :=
  s.aliases.foldl (fun n a => n * (a.2.length + 3)) (s.rest.length + 3)

end Source

abbrev Reader := EStateM Misreading Source

namespace Reader

/-- Repeats a step until it gives a result. -/
def iterate {σ α : Type} (step : σ → Reader (σ ⊕ α)) : Nat → σ → Reader α
  | 0, _ => throw .tooDeep
  | fuel + 1, s => do
    match ← step s with
    | .inl s => iterate step fuel s
    | .inr a => return a

/-- Repeats a step that reads something each time. -/
def repeated {σ α : Type} (step : σ → Reader (σ ⊕ α)) (s : σ) : Reader α := do
  iterate step (← get).bound s

/-- The next character as it stands. -/
def nextRaw : Reader (Option Char) := do
  let s ← get
  match s.rest with
  | [] => return none
  | c :: cs => do
    set { s with rest := cs }
    return some c

def dropContinuations (line : Nat) : Octets → Octets × Nat
  | '\\' :: '\n' :: cs => dropContinuations (line + 1) cs
  | cs => (cs, line)

/-- The next character that is not part of a line continuation. -/
def next : Reader (Option Char) := do
  let s ← get
  let (rest, line) := dropContinuations s.line s.rest
  set { s with rest, line }
  nextRaw

/-- Puts a character back. -/
def putBack (c : Option Char) : Reader Unit :=
  modify fun s => { s with rest := c.toList ++ s.rest }

def countLine : Reader Unit :=
  modify fun s => { s with line := s.line + 1 }

/-- Takes the next character if it is the one given. -/
def accept (c : Char) : Reader Bool := do
  let found ← next
  if found == some c then return true
  else do
    putBack found
    return false

def putTokenBack : Reader Unit :=
  modify fun s => { s with again := true }

def look (l : Lookout) : Reader Unit :=
  modify fun s => { s with lookout := l }

/-- Refuses the last token. -/
def refuse {α : Type} (wanted : Option Token) : Reader α := do
  throw (.unexpected (← get).last wanted)

end Reader

end ThreeAddress.Shell
