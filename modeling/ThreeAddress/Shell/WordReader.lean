import ThreeAddress.Shell.Source

/-!
# Reading words

A word is read a character at a time under a stack of levels, one for each nested part that has
quoting of its own: the operand of `${…}` where it differs from what is around it, and arithmetic.
Here-documents are read in the same way. What reads the commands of a substitution is a parameter.
-/

namespace ThreeAddress.Shell

inductive Quoting where
  | none
  | single
  | double
  | arithmetic
  deriving DecidableEq, Repr

inductive Role where
  | newline
  | plain
  /-- To be escaped where it is quoted. -/
  | special
  | backslash
  | singleQuote
  | doubleQuote
  | endQuote
  | dollar
  | closeBrace
  | openParen
  | closeParen
  | backquote
  | ending
  deriving DecidableEq, Repr

def isMeta (c : Char) : Bool := "!*?[=~:/-]".toList.contains c

def isEnding (c : Char) : Bool := "<>();&| \t".toList.contains c

/-- What a character does between such quotes. -/
def Quoting.role (q : Quoting) (c : Char) : Role :=
  if c = '\n' then .newline
  else
    match q with
    | .single =>
      if c = '\'' then .endQuote else if c = '\\' || isMeta c then .special else .plain
    | .none =>
      if c = '\'' then .singleQuote
      else if c = '"' then .doubleQuote
      else if isEnding c then .ending
      else common c .plain
    | .double =>
      if c = '"' then .endQuote else common c (if isMeta c then .special else .plain)
    | .arithmetic =>
      if c = '(' then .openParen else if c = ')' then .closeParen else common c .plain
where
  common (c : Char) (otherwise : Role) : Role :=
    match c with
    | '\\' => .backslash
    | '$' => .dollar
    | '\x60' => .backquote
    | '\x7d' => .closeBrace
    | _ => otherwise

structure Level where
  quoting : Quoting
  /-- Whether backslashes keep to double quotes here. -/
  doubled : Bool
  /-- Whether quotes were opened within the innermost operand. -/
  innerQuoted : Bool
  /-- Whether the level ends with its last operand. -/
  operand : Bool
  /-- How many operands are open. -/
  depth : Nat
  /-- How many of them are within double quotes. -/
  doubledDepth : Nat
  parens : Nat

def Level.ofQuoting (q : Quoting) : Level :=
  ⟨q, q == .double, false, false, 0, 0, 0⟩

/-- A piece whose operand is being read, and what came before it, in reverse. -/
structure Unfinished where
  before : List Piece
  finish : Word → Piece

structure Building where
  level : Level
  outerLevels : List Level
  /-- The pieces so far, in reverse. -/
  pieces : List Piece
  unfinished : List Unfinished
  quoted : Bool

namespace Building

def start (q : Quoting) : Building := ⟨.ofQuoting q, [], [], [], false⟩

def add (b : Building) (p : Piece) : Building := { b with pieces := p :: b.pieces }

def char (b : Building) (c : Char) : Building := b.add (.char c)

def openLevel (b : Building) (l : Level) : Building :=
  { b with level := l, outerLevels := b.level :: b.outerLevels }

def closeLevel (b : Building) : Building :=
  match b.outerLevels with
  | [] => b
  | l :: outer => { b with level := l, outerLevels := outer }

def openPiece (b : Building) (finish : Word → Piece) : Building :=
  { b with pieces := [], unfinished := ⟨b.pieces, finish⟩ :: b.unfinished }

def closePiece (b : Building) : Building :=
  match b.unfinished with
  | [] => b
  | u :: outer =>
    { b with pieces := u.finish b.pieces.reverse :: u.before, unfinished := outer }

/-- Quotation marks are kept, but not in here-documents. -/
def mark (b : Building) (inDocument : Bool) : Building :=
  if inDocument then b else b.add .quote

def toggleInner (b : Building) : Building :=
  if b.level.depth = 0 then b
  else { b with level := { b.level with innerQuoted := !b.level.innerQuoted } }

/-- What a backslash before a character gives. Between double quotes it stays, but for the
characters that need one. -/
def backslash (b : Building) (inDocument : Bool) (c : Char) : Building :=
  let l := b.level
  let stays := l.doubled && c != '\\' && c != '\x60' && c != '$' &&
    (c != '"' || (inDocument && l.depth = 0)) &&
    (c != '\x7d' || l.depth = 0 || l.innerQuoted)
  let b := if stays then b.add (.escaped '\\') else b
  { b.add (.escaped c) with quoted := true }

def endQuote (b : Building) (inDocument : Bool) (c : Char) : Building :=
  if inDocument && b.level.depth = 0 then b.char c
  else
    let level :=
      if b.level.doubledDepth = 0 then { b.level with quoting := .none, doubled := false }
      else b.level
    let b := { b with level, quoted := true }
    (if c = '"' then b.toggleInner else b).mark inDocument

def closeBrace (b : Building) : Building :=
  let l := b.level
  if l.depth = 0 || l.innerQuoted then b.char '\x7d'
  else
    let b := b.closePiece
    if l.depth = 1 && l.operand then b.closeLevel
    else { b with level := { l with depth := l.depth - 1, doubledDepth := l.doubledDepth - 1 } }

/-- Opens the operand of a parameter. -/
def openOperand (b : Building) (q : Quoting) (finish : Word → Piece) : Building :=
  let b :=
    if q ≠ b.level.quoting || b.level.innerQuoted then
      b.openLevel { Level.ofQuoting q with operand := true, doubled := q != .none }
    else b
  let doubledDepth := b.level.doubledDepth + (if b.level.doubled then 1 else 0)
  { b with level := { b.level with depth := b.level.depth + 1, doubledDepth } }.openPiece finish

def openArithmetic (b : Building) : Building :=
  (b.openLevel { Level.ofQuoting .arithmetic with doubled := true }).openPiece .arithmetic

end Building

namespace Reader

/-! ### Parameters -/

/-- Takes the characters that may go on a name. -/
def takeName (p : Char → Bool) : Reader Octets :=
  repeated (fun name => do
    let c ← next
    match c with
    | some c =>
      if p c then return .inl (c :: name)
      else do
        putBack (some c)
        return .inr name.reverse
    | none => return .inr name.reverse) []

/-- A parameter's name, whether its length is asked for, and whether what follows may be an
operation. -/
structure Named where
  name : Octets
  length : Bool
  complete : Bool

/-- Reads the name after a character that may begin it. -/
def plainName (c : Char) : Reader Octets := do
  return c :: (← takeName (if isNameStart c then isNameChar else Char.isDigit))

/-- Reads the name in braces. A number sign asks for the length where a name follows it. -/
def bracedName : Reader Named := do
  let c ← next
  match c with
  | none => return ⟨[], false, false⟩
  | some '\x7d' => do
    putBack c
    return ⟨[], false, false⟩
  | some '#' => do
    let d ← next
    match d with
    | some d' =>
      if d'.isAlphanum || d' == '_' then return ⟨← plainName d', true, true⟩
    | none => pure ()
    let e ← next
    if d == some '\x7d' || e != some '\x7d' then do
      putBack e
      putBack d
      return ⟨['#'], false, true⟩
    else do
      putBack e
      return ⟨d.toList, true, d.any isSpecialName⟩
  | some c =>
    if isNameStart c || c.isDigit then return ⟨← plainName c, false, true⟩
    else return ⟨[c], false, isSpecialName c⟩

/-- Reads the sign of an operation, after a colon or without one. -/
def operationSign (colon : Bool) : Reader Operation := do
  let c ← next
  match c with
  | some '\x7d' => return .value
  | some '-' => return .orDefault
  | some '+' => return .alternative
  | some '?' => return .orFail
  | some '=' => return .orAssign
  | some '%' => if colon then return .unknown else return .trimSuffix (← accept '%')
  | some '#' => if colon then return .unknown else return .trimPrefix (← accept '#')
  | _ => return .unknown

/-- Reads what stands in braces up to the operand, if there is one. -/
def bracedParameter (b : Building) : Reader Building := do
  let named ← bracedName
  if named.length then
    let c ← next
    putBack c
    let op := if named.complete && c == some '\x7d' then .length else .unknown
    return b.openOperand (operandQuoting b op) (.parameter named.name op false)
  else if !named.complete then
    return b.openOperand (operandQuoting b .unknown) (.parameter named.name .unknown false)
  else
    let colon ← accept ':'
    let op ← operationSign colon
    if op == .value && !colon then return b.add (.parameter named.name .value false [])
    else return b.openOperand (operandQuoting b op) (.parameter named.name op colon)
where
  /-- A pattern to trim begins without quotes. -/
  operandQuoting (b : Building) : Operation → Quoting
    | .trimSuffix _ => .none
    | .trimPrefix _ => .none
    | _ => if b.level.quoting = .arithmetic then .double else b.level.quoting

/-! ### Substitutions -/

/-- Gives the here-documents that are still awaited no text. -/
def abandonDocuments : Reader Unit :=
  modify fun s =>
    { s with
      awaited := []
      documents := s.awaited.map (fun a => (a.number, [])) ++ s.documents }

/-- Reads commands up to a closing parenthesis. -/
def newSubstitution (list : Reader (Option Command)) : Reader Piece := do
  let before := (← get).awaited
  modify fun s => { s with awaited := [] }
  let body ← list
  if (← get).last ≠ .fixed ")" then refuse (some (.fixed ")"))
  abandonDocuments
  modify fun s => { s with again := false, awaited := before }
  return .substitution body

/-- Reads up to a closing backquote. Backslashes there are for the commands within, but for those
that stand before characters special out here. -/
def backquoted (doubled : Bool) : Reader Octets :=
  repeated (fun text => do
    match ← next with
    | some '\x60' => return .inr text.reverse
    | none => throw .unclosedBackquote
    | some '\\' => do
      match ← nextRaw with
      | none => return .inl ('\\' :: text)
      | some c =>
        if c == '\\' || c == '\x60' || c == '$' || (doubled && c == '"') then
          return .inl (c :: text)
        else return .inl (c :: '\\' :: text)
    | some c => do
      if c == '\n' then countLine
      return .inl (c :: text)) []

/-- Reads the commands between backquotes as a text of their own. -/
def oldSubstitution (list : Reader (Option Command)) (doubled : Bool) : Reader Piece := do
  let text ← backquoted doubled
  let s ← get
  let outside := s.replacing.map ({ · with after := 0 })
  set { s with rest := text, line := 1, awaited := [], again := false, replacing := outside }
  let body ← list
  abandonDocuments
  modify fun after =>
    { after with
      rest := s.rest, line := s.line, awaited := s.awaited, again := false
      replacing := s.replacing }
  return .substitution body

/-! ### Words -/

/-- What a word is read as: a part of a command, or a here-document with its mark. -/
inductive Form where
  | word
  /-- The word that ends a here-document. -/
  | endMark
  | document (a : Awaited)

def Form.isDocument : Form → Bool
  | .document _ => true
  | _ => false

/-- The next character, a line continuation being none but between single quotes. -/
def nextIn (q : Quoting) : Reader (Option Char) :=
  if q = .single then nextRaw else next

def dollar (list : Reader (Option Command)) (form : Form) (b : Building) : Reader Building := do
  let c ← next
  let begins := match c with
    | some c => c == '(' || c == '\x7b' || isNameStart c || isSpecialName c
    | none => false
  match form, c with
  | .endMark, _ => plain c
  | _, some '(' => do
    if ← accept '(' then return b.openArithmetic
    else return b.add (← newSubstitution list)
  | _, some '\x7b' => bracedParameter b
  | _, some c' =>
    if begins then
      let name ← if isNameStart c' then plainName c' else pure [c']
      return b.add (.parameter name .value false [])
    else plain c
  | _, none => plain c
where
  plain (c : Option Char) : Reader Building := do
    putBack c
    return b.char '$'

/-- What a character does to the word. -/
def step (list : Reader (Option Command)) (form : Form) (b : Building) (c : Char) :
    Role → Reader Building
  | .newline => do
    countLine
    return b.char c
  | .plain => return b.char c
  | .special =>
    return b.add (if !form.isDocument || b.level.doubled then .escaped c else .char c)
  | .backslash => do
    match ← nextRaw with
    | none => return b.add (.escaped '\\')
    | some c => return b.backslash form.isDocument c
  | .singleQuote =>
    return { b with level := { b.level with quoting := .single } }.mark form.isDocument
  | .doubleQuote =>
    let b := { b with level := { b.level with quoting := .double, doubled := true } }
    return b.toggleInner.mark form.isDocument
  | .endQuote => return b.endQuote form.isDocument c
  | .dollar => dollar list form b
  | .closeBrace => return b.closeBrace
  | .openParen =>
    return { b.char c with level := { b.level with parens := b.level.parens + 1 } }
  | .closeParen => do
    if 0 < b.level.parens then
      return { b.char c with level := { b.level with parens := b.level.parens - 1 } }
    else if ← accept ')' then return b.closePiece.closeLevel
    else return b.char c
  | .backquote => do
    match form with
    | .endMark => return b.char c
    | _ => return b.add (← oldSubstitution list b.level.doubled)
  | .ending => return b.char c

/-- What is left after a line that is just the mark of a here-document. -/
def afterMark? : Octets → Octets → Option Octets
  | [], [] => some []
  | [], '\n' :: cs => some cs
  | [], _ => none
  | m :: mark, c :: cs => if m = c then afterMark? mark cs else none
  | _ :: _, [] => none

/-- At the start of a line of a here-document: whether the document ends here. -/
def atMark (a : Awaited) : Reader Bool := do
  if a.strip then modify fun s => { s with rest := s.rest.dropWhile (· == '\t') }
  match afterMark? a.mark (← get).rest with
  | some rest => do
    modify fun s => { s with rest }
    countLine
    return true
  | none => return false

/-- Whether the text ends at the start of a line. -/
def endsAtLine : Form → Reader Bool
  | .document a => atMark a
  | _ => return false

def checkClosed (form : Form) (b : Building) : Reader Unit := do
  if b.level.quoting = .arithmetic then throw .unclosedArithmetic
  if b.level.quoting ≠ .none && !form.isDocument then throw .unterminatedQuote
  if b.level.depth ≠ 0 then throw .unclosedParameter

/-- Reads on to the end of a word or document. The character that ends it stays to be read. -/
def building (list : Reader (Option Command)) (form : Form) (b : Building) : Reader Building := do
  if ← endsAtLine form then return b
  else
    repeated (fun b => do
      match ← nextIn b.level.quoting with
      | none => return .inr b
      | some c =>
        let role := b.level.quoting.role c
        let ends :=
          b.level.depth = 0 && (role = .ending || (role = .newline && b.level.quoting = .none))
        if ends && !form.isDocument then do
          putBack (some c)
          return .inr b
        else do
          let b ← step list form b c role
          if role = .newline then
            if ← endsAtLine form then return .inr b
          return .inl b) b

/-- The sign of a redirection, after the character that begins it. -/
def redirectionSign (c : Char) (fd : Option Nat) : Reader RedirectionSign := do
  if c = '>' then
    let fd := fd.getD 1
    if ← accept '>' then return .file fd .append
    else if ← accept '|' then return .file fd .replace
    else if ← accept '&' then return .duplicate fd
    else return .file fd .output
  else
    let fd := fd.getD 0
    if ← accept '<' then return .document fd (← accept '-')
    else if ← accept '&' then return .duplicate fd
    else if ← accept '>' then return .file fd .both
    else return .file fd .input

/-- The descriptor that a word before a redirection stands for, if it is such a word. -/
def descriptor? (b : Building) : Option (Option Nat) :=
  if b.quoted then none
  else
    match b.pieces with
    | [] => some none
    | [.char c] => if c.isDigit then some (some (c.toNat - '0'.toNat)) else none
    | _ => none

/-- Reads a word, or the sign of a redirection. -/
def wordToken (list : Reader (Option Command)) (form : Form) : Reader Token := do
  let b ← building list form (.start .none)
  checkClosed form b
  let c ← next
  match descriptor? b, c with
  | some fd, some '<' => redirection '<' fd
  | some fd, some '>' => redirection '>' fd
  | _, _ => do
    putBack c
    modify fun s => { s with word := b.pieces.reverse, quoted := b.quoted }
    return .word
where
  redirection (c : Char) (fd : Option Nat) : Reader Token := do
    let sign ← redirectionSign c fd
    modify fun s => { s with sign }
    return .redirection

/-- Reads the here-documents that begin at the next line. -/
def readDocuments (list : Reader (Option Command)) : Reader Unit := do
  let awaited := (← get).awaited
  modify fun s => { s with awaited := [] }
  for a in awaited do
    let form := .document a
    let b ← building list form (.start (if a.literal then .single else .double))
    checkClosed form b
    modify fun s => { s with documents := (a.number, b.pieces.reverse) :: s.documents }

/-! ### Tokens -/

/-- The next character that is neither blank nor part of a comment. -/
def skipBlanks : Reader (Option Char) :=
  repeated (fun () => do
    let c ← next
    if c == some ' ' || c == some '\t' then return .inl ()
    else if c == some '#' then do
      modify fun s => { s with rest := s.rest.dropWhile (· != '\n') }
      return .inl ()
    else return .inr c) ()

/-- An operator that may be doubled. -/
def operator (c : Char) : Reader Token := do
  if ← accept c then return .fixed (String.ofList [c, c]) else return .fixed (String.ofList [c])

/-- Reads a token, or the last one again. Whether a word is reserved is not looked at. -/
def rawToken (list : Reader (Option Command)) : Reader Token := do
  let s ← get
  if s.again then do
    set { s with again := false }
    return s.last
  else do
    let c ← skipBlanks
    let t ← match c with
      | none => pure .endOfFile
      | some '\n' => do
        countLine
        pure .newline
      | some '(' => pure (.fixed "(")
      | some ')' => pure (.fixed ")")
      | some '&' => operator '&'
      | some '|' => operator '|'
      | some ';' => operator ';'
      | some _ => do
        putBack c
        wordToken list (if s.lookout.endMark then .endMark else .word)
    modify fun s => { s with last := t }
    return t

/-- Passes over newlines, of which the first has been read, up to another token. -/
def skipNewlines (list : Reader (Option Command)) : Reader Token :=
  repeated (fun () => do
    readDocuments list
    look .none
    let t ← rawToken list
    if t = .newline then return .inl () else return .inr t) ()

/-- Puts the value of an alias before the rest. -/
def pushAlias (name value : Octets) : Reader Unit :=
  modify fun s =>
    let blank := value.getLast?.any fun c => c == ' ' || c == '\t'
    { s with
      rest := value ++ s.rest
      replacing :=
        if value.isEmpty then s.replacing else ⟨name, s.rest.length, blank⟩ :: s.replacing }

/-- Whether what was read last goes on beyond the value of an alias that ends in a blank. The aliases
whose values have been left behind can be used again. -/
def leaveAliases : Reader Bool := do
  let s ← get
  let (inside, left) := s.replacing.partition (·.after ≤ s.rest.length)
  set { s with replacing := inside }
  return left.any (·.endsBlank)

/-- Reads a token as a lookout asks, or puts a value in the place of an alias and says what is looked
for in it. -/
def tokenStep (list : Reader (Option Command)) (wanted : Lookout) :
    Reader (Lookout ⊕ Token) := do
  let first ← rawToken list
  let t ← if wanted.skipNewlines && first = .newline then skipNewlines list else pure first
  look .none
  let wanted := { wanted with aliases := (← leaveAliases) || wanted.aliases }
  let s ← get
  match t, if s.quoted then none else s.word.plain? with
  | .word, some name =>
    let text := String.ofList name
    if wanted.reserved && reservedWords.contains text then
      set { s with last := .fixed text }
      return .inr (.fixed text)
    else
      match if wanted.aliases then s.aliases.lookup name else none with
      | some value =>
        if s.replacing.any (·.name = name) then return .inr .word
        else do
          pushAlias name value
          return .inl wanted
      | none => return .inr .word
  | t, _ => return .inr t

/-- Reads a token as the lookout asks. -/
def token (list : Reader (Option Command)) : Reader Token := do
  repeated (tokenStep list) (← get).lookout

end Reader

end ThreeAddress.Shell
