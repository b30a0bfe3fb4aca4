import ThreeAddress.Files.FilePath

/-!
# Command-line arguments

Arguments are read from left to right, and the first that decides the outcome does: a request for
help or the version, or a misuse. A switch is given once at most. A word after `--` is an operand
whatever it looks like.
-/

namespace ThreeAddress.Cli

open Files (FilePath)

inductive Command where
  | generate (input output : FilePath) (lenient toStdout : Bool)
  | job (source : FilePath) (config : Option FilePath) (frontEnd : Option String)
  deriving DecidableEq, Repr

structure Arguments where
  /-- Asks for a log, of which a command's answer holds nothing. -/
  verbose : Bool
  command : Command
  deriving DecidableEq, Repr

/-- Why arguments name nothing to run. -/
inductive Stop where
  | help
  | version
  | misuse
  deriving DecidableEq, Repr

/-- What a switch takes. -/
inductive Takes where
  | nothing
  | text
  /-- A value that may not be empty. -/
  | path
  /-- It ends the reading of arguments. -/
  | stop (s : Stop)
  deriving DecidableEq, Repr

structure Switch where
  short : Option Char
  long : String
  takes : Takes
  deriving DecidableEq, Repr

def verboseSwitch : Switch := ⟨some 'v', "verbose", .nothing⟩

def helpSwitch : Switch := ⟨some 'h', "help", .stop .help⟩

def mainSwitches : List Switch :=
  [verboseSwitch, helpSwitch, ⟨some 'V', "version", .stop .version⟩]

def generateSwitches : List Switch :=
  [verboseSwitch, helpSwitch, ⟨some 'o', "output", .path⟩, ⟨none, "lenient-branches", .nothing⟩,
    ⟨none, "stdout", .nothing⟩]

def jobSwitches : List Switch :=
  [verboseSwitch, helpSwitch, ⟨some 'c', "config", .path⟩, ⟨none, "frontend", .text⟩]

/-- The switches given, by long name, and the operands. -/
structure Given where
  switches : List (String × String)
  operands : List String

namespace Given

def empty : Given := ⟨[], []⟩

def has (g : Given) (name : String) : Bool := g.switches.any (·.1 == name)

def value? (g : Given) (name : String) : Option String := g.switches.lookup name

/-- Gives a switch its value, which is empty for a switch that takes none. -/
def give (g : Given) (s : Switch) (value : String) : Except Stop Given :=
  match s.takes with
  | .stop stop => .error stop
  | takes =>
    if g.has s.long || (takes == .path && value.isEmpty) then .error .misuse
    else .ok { g with switches := g.switches ++ [(s.long, value)] }

/-- Only one operand is ever asked for, and it names a file. -/
def operand (g : Given) (word : String) : Except Stop Given :=
  if word.isEmpty || !g.operands.isEmpty then .error .misuse
  else .ok { g with operands := [word] }

end Given

def Takes.isValue : Takes → Bool
  | .text => true
  | .path => true
  | _ => false

/-- Whether a word can be the value of the switch before it. -/
def isValue (word : String) : Bool :=
  word == "-" || !word.startsWith "-"

/-- A switch that needs its value from the next argument. -/
abbrev Pending := Option Switch

/-- Reads a long switch, what comes after its two dashes. -/
def readLong (switches : List Switch) (g : Given) (word : List Char) :
    Except Stop (Given × Pending) := do
  let name := String.ofList (word.takeWhile (· != '='))
  let attached := word.dropWhile (· != '=')
  match switches.find? (·.long == name) with
  | none => .error .misuse
  | some s =>
    match s.takes.isValue, attached with
    | true, [] => if g.has s.long then .error .misuse else return (g, some s)
    | true, _ :: value => return (← g.give s (String.ofList value), none)
    | false, [] => return (← g.give s "", none)
    | false, _ => .error .misuse

/-- Reads short switches in one word; the first that takes a value takes what is left. -/
def readShort (switches : List Switch) (g : Given) : List Char → Except Stop (Given × Pending)
  | [] => .ok (g, none)
  | c :: cs =>
    match switches.find? (·.short == some c) with
    | none => .error .misuse
    | some s =>
      if s.takes.isValue then
        match cs with
        | [] => if g.has s.long then .error .misuse else .ok (g, some s)
        | '=' :: value => do return (← g.give s (String.ofList value), none)
        | value => do return (← g.give s (String.ofList value), none)
      else do readShort switches (← g.give s "") cs

def readOperands (g : Given) : List String → Except Stop Given
  | [] => .ok g
  | word :: rest => do readOperands (← g.operand word) rest

/-- Reads a word that is neither a value nor after `--`, if it is a switch. -/
def readSwitch? (switches : List Switch) (g : Given) (word : String) :
    Option (Except Stop (Given × Pending)) :=
  match word.toList with
  | '-' :: '-' :: long => some (readLong switches g long)
  | '-' :: c :: cs => some (readShort switches g (c :: cs))
  | _ => none

/-- Reads all arguments of a command. -/
def read (switches : List Switch) : Given → Pending → List String → Except Stop Given
  | g, none, [] => .ok g
  | _, some _, [] => .error .misuse
  | g, some s, word :: rest =>
    if isValue word then do read switches (← g.give s word) none rest
    else .error .misuse
  | g, none, "--" :: rest => readOperands g rest
  | g, none, word :: rest =>
    match readSwitch? switches g word with
    | some result => do
      let (g, pending) ← result
      read switches g pending rest
    | none => do read switches (← g.operand word) none rest

/-- Reads switches up to the first operand, which names a command, and gives the rest. -/
def readMain : Given → List String → Except Stop (Given × String × List String)
  | _, [] => .error .misuse
  | _, "--" :: _ => .error .misuse
  | g, word :: rest =>
    match readSwitch? mainSwitches g word with
    | some result => do readMain (← result).1 rest
    | none => .ok (g, word, rest)

/-- What `help` can be asked about. -/
def commandNames : List String := ["generate", "job", "help"]

def helpOn : List String → Stop
  | [] => .help
  | [name] => if commandNames.contains name then .help else .misuse
  | _ => .misuse

def defaultOutput : FilePath := ⟨"armv8_output.s"⟩

def commandOf (name : String) (g : Given) : Except Stop Command :=
  match name, g.operands with
  | "generate", [input] =>
    .ok (.generate ⟨input⟩ (((g.value? "output").map FilePath.mk).getD defaultOutput)
      (g.has "lenient-branches") (g.has "stdout"))
  | "job", [source] =>
    .ok (.job ⟨source⟩ ((g.value? "config").map FilePath.mk) (g.value? "frontend"))
  | _, _ => .error .misuse

def switchesOf : String → Except Stop (List Switch)
  | "generate" => .ok generateSwitches
  | "job" => .ok jobSwitches
  | _ => .error .misuse

def Arguments.ofList (words : List String) : Except Stop Arguments := do
  let (main, name, rest) ← readMain .empty words
  if name = "help" then .error (helpOn rest)
  else
    let given ← read (← switchesOf name) .empty none rest
    return ⟨main.has "verbose" || given.has "verbose", ← commandOf name given⟩

end ThreeAddress.Cli
