import ThreeAddress.Shell.EscapeQuoted

/-!
# The command line of `cp`

Options may stand between operands, long ones may be shortened as long as only one is meant, and the
first that cannot be understood decides. What the options ask for may still contradict itself:
`Plan.contradiction?` finds that.
-/

namespace ThreeAddress.Shell.Copy

/-- What an option asks for. -/
inductive Choice where
  | archive | attributesOnly | backup | copyContents | dereference | dereferenceOperands
  | keepLinks | noDereference | force | interactive | link | noClobber | noPreserve | noTarget
  | oneFileSystem | parents | preserve | recursive | removeFirst | reflink | sparse | stripSlashes
  | suffix | symbolicLink | target | update | verbose | context | help | version
  deriving DecidableEq, Repr

inductive Takes where
  | nothing
  | argument
  | maybeArgument
  deriving DecidableEq, Repr

def longOptions : List (String × Takes × Choice) :=
  [("archive", .nothing, .archive), ("attributes-only", .nothing, .attributesOnly),
    ("backup", .maybeArgument, .backup), ("copy-contents", .nothing, .copyContents),
    ("dereference", .nothing, .dereference), ("force", .nothing, .force),
    ("interactive", .nothing, .interactive), ("link", .nothing, .link),
    ("no-clobber", .nothing, .noClobber), ("no-dereference", .nothing, .noDereference),
    ("no-preserve", .argument, .noPreserve), ("no-target-directory", .nothing, .noTarget),
    ("one-file-system", .nothing, .oneFileSystem), ("parents", .nothing, .parents),
    ("path", .nothing, .parents), ("preserve", .maybeArgument, .preserve),
    ("recursive", .nothing, .recursive), ("remove-destination", .nothing, .removeFirst),
    ("sparse", .argument, .sparse), ("reflink", .maybeArgument, .reflink),
    ("strip-trailing-slashes", .nothing, .stripSlashes), ("suffix", .argument, .suffix),
    ("symbolic-link", .nothing, .symbolicLink), ("target-directory", .argument, .target),
    ("update", .nothing, .update), ("verbose", .nothing, .verbose),
    ("context", .maybeArgument, .context), ("help", .nothing, .help),
    ("version", .nothing, .version)]

def shortOption? (c : Char) : Option (Takes × Choice) :=
  match c with
  | 'a' => some (.nothing, .archive)
  | 'b' => some (.nothing, .backup)
  | 'd' => some (.nothing, .keepLinks)
  | 'f' => some (.nothing, .force)
  | 'H' => some (.nothing, .dereferenceOperands)
  | 'i' => some (.nothing, .interactive)
  | 'l' => some (.nothing, .link)
  | 'L' => some (.nothing, .dereference)
  | 'n' => some (.nothing, .noClobber)
  | 'p' => some (.nothing, .preserve)
  | 'P' => some (.nothing, .noDereference)
  | 'r' => some (.nothing, .recursive)
  | 'R' => some (.nothing, .recursive)
  | 's' => some (.nothing, .symbolicLink)
  | 'S' => some (.argument, .suffix)
  | 't' => some (.argument, .target)
  | 'T' => some (.nothing, .noTarget)
  | 'u' => some (.nothing, .update)
  | 'v' => some (.nothing, .verbose)
  | 'x' => some (.nothing, .oneFileSystem)
  | 'Z' => some (.nothing, .context)
  | _ => none

/-! ### Misuse -/

inductive Misuse where
  | unknownLetter (c : Char)
  /-- The text of an option after its dashes, with its value. -/
  | unknownName (text : Octets)
  | ambiguousName (text : Octets) (names : List String)
  | unwantedArgument (name : String)
  | missingNamed (name : String)
  | missingLettered (c : Char)
  /-- A value that is none of those there are, or begins several. -/
  | badValue (value : Octets) (option : String) (isAmbiguous : Bool) (values : List (List String))
  | linksOfBothKinds
  | backupsOfNothing
  | sparseClones
  | manyTargets
  | contextNotKept
  deriving DecidableEq, Repr

namespace Misuse

def lines (e : Misuse) : List Octets :=
  let option (name : Octets) : Octets := "'--".toList ++ name ++ ['\'']
  match e with
  | .unknownLetter c => ["invalid option -- '".toList ++ [c, '\'']]
  | .unknownName text => ["unrecognized option ".toList ++ option text]
  | .ambiguousName text names =>
    ["option ".toList ++ option text ++ " is ambiguous; possibilities:".toList ++
      names.flatMap fun n => ' ' :: option n.toList]
  | .unwantedArgument name => ["option ".toList ++ option name.toList ++
      " doesn't allow an argument".toList]
  | .missingNamed name => ["option ".toList ++ option name.toList ++ " requires an argument".toList]
  | .missingLettered c => ["option requires an argument -- '".toList ++ [c, '\'']]
  | .badValue value option isAmbiguous values =>
    ((if isAmbiguous then "ambiguous" else "invalid").toList ++ " argument ".toList ++
        EscapeQuoted.quote value ++ " for '".toList ++ option.toList ++ ['\'']) ::
      "Valid arguments are:".toList ::
      values.map fun names =>
        "  - ".toList ++ (", ".intercalate (names.map fun n => "'" ++ n ++ "'")).toList
  | .linksOfBothKinds => ["cannot make both hard and symbolic links".toList]
  | .backupsOfNothing => ["options --backup and --no-clobber are mutually exclusive".toList]
  | .sparseClones => ["--reflink can be used only with --sparse=auto".toList]
  | .manyTargets => ["multiple target directories specified".toList]
  | .contextNotKept =>
    ["cannot preserve security context without an SELinux-enabled kernel".toList]

/-- Whether the message is followed by a hint at the help text. -/
def pointsToHelp : Misuse → Bool
  | .manyTargets => false
  | .contextNotKept => false
  | _ => true

end Misuse

/-! ### Plans -/

inductive Backup where
  | none
  | simple
  | numbered
  /-- Numbered where there are numbered ones already. -/
  | likeExisting
  deriving DecidableEq, Repr

inductive Existing where
  | replace
  | ask
  /-- Leaves what is there. -/
  | skip
  deriving DecidableEq, Repr

/-- Which links are followed to what is copied. -/
inductive Following where
  | never
  | operands
  | always
  deriving DecidableEq, Repr

/-- What a command line asks for. -/
structure Plan where
  operands : List Octets := []
  target : Option Octets := none
  noTarget : Bool := false
  recursive : Bool := false
  /-- Which links are followed, if that is said. -/
  following : Option Following := none
  existing : Existing := .replace
  /-- Whether only what is newer is copied. -/
  update : Bool := false
  verbose : Bool := false
  parents : Bool := false
  stripSlashes : Bool := false
  hardLink : Bool := false
  symbolicLink : Bool := false
  /-- Whether a target that cannot be opened is removed. -/
  force : Bool := false
  removeFirst : Bool := false
  copiesData : Bool := true
  copiesContents : Bool := false
  keepsLinks : Bool := false
  keepsTimes : Bool := false
  keepsOwner : Bool := false
  keepsMode : Bool := false
  keepsContext : Bool := false
  clonesOnly : Bool := false
  isSparseAuto : Bool := true
  /-- Whether backups are asked for, and of which kind and with which suffix if that is said. -/
  backs : Bool := false
  backupText : Option Octets := none
  suffixText : Option Octets := none

/-- How reading the command line can end. -/
inductive Stop where
  | help
  | version
  | misuse (e : Misuse)
  deriving DecidableEq, Repr

/-- Reading counts how often an option was given that can only be ignored. -/
abbrev Reading := ExceptT Stop (StateM Nat)

/-- The value that a text stands for, of groups of values that mean the same. -/
def valueOf (value : Octets) (option : String) (values : List (List String)) :
    Except Stop String :=
  let named := values.filterMap fun names =>
    match names with
    | [] => none
    | first :: _ => if names.any (·.toList = value) then some first else none
  let begun := values.filterMap fun names =>
    match names with
    | [] => none
    | first :: _ => if names.any (value.isPrefixOf ·.toList) then some first else none
  match named, begun with
  | name :: _, _ => .ok name
  | [], [name] => .ok name
  | [], names => .error (.misuse (.badValue value option (!names.isEmpty) values))

def Backup.ofText (text : Octets) (option : String) : Except Stop Backup := do
  let name ← valueOf text option
    [["none", "off"], ["simple", "never"], ["existing", "nil"], ["numbered", "t"]]
  return if name = "none" then .none else if name = "simple" then .simple
    else if name = "numbered" then .numbered else .likeExisting

namespace Plan

/-- The names of attributes that can be preserved. -/
def attributes : List (List String) :=
  [["mode"], ["timestamps"], ["ownership"], ["links"], ["context"], ["xattr"], ["all"]]

/-- Keeps an attribute, or keeps it no longer. -/
def keep (on : Bool) (p : Plan) : String → Plan
  | "mode" => { p with keepsMode := on }
  | "timestamps" => { p with keepsTimes := on }
  | "ownership" => { p with keepsOwner := on }
  | "links" => { p with keepsLinks := on }
  | "context" => { p with keepsContext := on }
  | "all" => { p with keepsMode := on, keepsTimes := on, keepsOwner := on, keepsLinks := on }
  | _ => p

/-- Keeps the attributes of a list, or keeps them no longer. -/
def keepListed (on : Bool) (option : String) (p : Plan) (list : Octets) : Except Stop Plan :=
  (list.splitOn ',').foldlM (fun p name => do return p.keep on (← valueOf name option attributes)) p

def keepUsual (p : Plan) : Plan := { p with keepsMode := true, keepsTimes := true, keepsOwner := true }

def apply (p : Plan) (choice : Choice) (value : Option Octets) : Reading Plan := do
  match choice with
  | .help => throw .help
  | .version => throw .version
  | .archive =>
    return { p.keepUsual with recursive := true, keepsLinks := true, following := some .never }
  | .recursive => return { p with recursive := true }
  | .dereference => return { p with following := some .always }
  | .dereferenceOperands => return { p with following := some .operands }
  | .noDereference => return { p with following := some .never }
  | .keepLinks => return { p with following := some .never, keepsLinks := true }
  | .noClobber => return { p with existing := .skip }
  | .interactive => return { p with existing := .ask }
  | .update => return { p with update := true }
  | .verbose => return { p with verbose := true }
  | .parents => return { p with parents := true }
  | .stripSlashes => return { p with stripSlashes := true }
  | .link => return { p with hardLink := true }
  | .symbolicLink => return { p with symbolicLink := true }
  | .force => return { p with force := true }
  | .removeFirst => return { p with removeFirst := true }
  | .attributesOnly => return { p with copiesData := false }
  | .copyContents => return { p with copiesContents := true }
  | .oneFileSystem => return p
  | .noTarget => return { p with noTarget := true }
  | .target =>
    if p.target.isSome then throw (.misuse .manyTargets) else return { p with target := value }
  | .suffix => return { p with backs := true, suffixText := value }
  | .backup => return { p with backs := true, backupText := value <|> p.backupText }
  | .sparse => do
    let name ← valueOf (value.getD []) "--sparse" [["never"], ["auto"], ["always"]]
    return { p with isSparseAuto := name = "auto" }
  | .reflink =>
    match value with
    | none => return { p with clonesOnly := true }
    | some v => do
      let name ← valueOf v "--reflink" [["auto"], ["always"], ["never"]]
      return { p with clonesOnly := name = "always" }
  | .preserve =>
    match value with
    | none => return p.keepUsual
    | some v => p.keepListed true "--preserve" v
  | .noPreserve => p.keepListed false "--no-preserve" (value.getD [])
  | .context => do
    if value.isSome then modify (· + 1)
    return p

/-- What is wrong with a plan as a whole. -/
def contradiction? (p : Plan) : Option Misuse :=
  if p.hardLink && p.symbolicLink then some .linksOfBothKinds
  else if p.backs && p.existing = .skip then some .backupsOfNothing
  else if p.clonesOnly && !p.isSparseAuto then some .sparseClones
  else none

/-- Which links are followed: none if directories are copied, all if not, unless it is said. -/
def follows (p : Plan) : Following :=
  p.following.getD (if p.recursive && !p.hardLink then .never else .always)

/-- Whether what is no directory and no link is copied by its content. -/
def readsAll (p : Plan) : Bool := !p.recursive || p.copiesContents

end Plan

/-! ### Reading -/

/-- The long option that a text begins with, to the sign before a value. -/
def longOption (text : Octets) : Except Stop (String × Takes × Choice) :=
  let name := text.takeWhile (· != '=')
  match longOptions.find? (·.1.toList = name) with
  | some o => .ok o
  | none =>
    match longOptions.filter (name.isPrefixOf ·.1.toList) with
    | [] => .error (.misuse (.unknownName text))
    | o :: os =>
      -- Options that do the same as the first are no reason for doubt.
      match os.filter (·.2 != o.2) with
      | [] => .ok o
      | others => .error (.misuse (.ambiguousName text ((o :: others).map (·.1))))

/-- Applies a group of letters, and gives the words that are left. -/
def readLetters (p : Plan) : Octets → List Octets → Reading (Plan × List Octets)
  | [], words => return (p, words)
  | c :: cs, words => do
    match shortOption? c with
    | none => throw (.misuse (.unknownLetter c))
    | some (.argument, choice) =>
      match cs, words with
      | [], [] => throw (.misuse (.missingLettered c))
      | [], word :: words => return (← p.apply choice (some word), words)
      | cs, words => return (← p.apply choice (some cs), words)
    | some (_, choice) => readLetters (← p.apply choice none) cs words

/-- Applies a long option, and gives the words that are left. -/
def readLong (p : Plan) (text : Octets) (words : List Octets) : Reading (Plan × List Octets) := do
  let (full, takes, choice) ← longOption text
  let afterName := text.dropWhile (· != '=')
  let value := if afterName.isEmpty then none else some afterName.tail
  match takes, value, words with
  | .nothing, some _, _ => throw (.misuse (.unwantedArgument full))
  | .argument, none, [] => throw (.misuse (.missingNamed full))
  | .argument, none, word :: words => return (← p.apply choice (some word), words)
  | _, value, words => return (← p.apply choice value, words)

def readWords : Nat → Plan → List Octets → Reading Plan
  | 0, p, _ => return p
  | _ + 1, p, [] => return p
  | fuel + 1, p, word :: words => do
    match word with
    | ['-', '-'] => return { p with operands := p.operands ++ words }
    | '-' :: '-' :: text => do
      let (p, words) ← readLong p text words
      readWords fuel p words
    | '-' :: c :: cs => do
      let (p, words) ← readLetters p (c :: cs) words
      readWords fuel p words
    | word => readWords fuel { p with operands := p.operands ++ [word] } words

/-- The plan of a command line, and how often an option was ignored. -/
def Plan.ofWords (words : List Octets) : Except Stop Plan × Nat :=
  (readWords (words.length + 1) {} words).run.run 0

end ThreeAddress.Shell.Copy
