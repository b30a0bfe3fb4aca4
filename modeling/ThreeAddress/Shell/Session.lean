import ThreeAddress.Files.Access
import ThreeAddress.Shell.Fault
import ThreeAddress.Shell.Setting

/-!
# Sessions

What a shell knows while it runs. The context is a shell's own: a subshell starts with a copy of it.
Open files are shared, so that what one command has read or written is behind all that hold the same
file.
-/

namespace ThreeAddress.Shell

open Files (Access FilePath)

structure Variable where
  value : Option Octets
  exported : Bool
  readOnly : Bool
  deriving DecidableEq, Repr

/-- What keeps the commands that follow from running. -/
inductive Skip where
  /-- Leaves so many loops. -/
  | leaving (loops : Nat)
  /-- Leaves all but the last of so many loops, which goes on. -/
  | continuing (loops : Nat)
  /-- Leaves a function or a file, with a status of its own or the last one. -/
  | returning (hasStatus : Bool)
  deriving DecidableEq, Repr

/-- What was so before a function, to be so again after it. -/
structure Frame where
  vars : List (Octets × Option Variable)
  settings : Option (List Setting)

/-- Where reading options has come to in a list of words. -/
structure Scanning where
  /-- The number of the next word, counted from one. -/
  next : Nat
  /-- Where in the word before that the next option stands, if there may be one. -/
  offset : Option Nat
  deriving DecidableEq, Repr

def Scanning.start : Scanning := ⟨1, none⟩

/-- Where a program was found. -/
structure Finding where
  name : Octets
  path : Octets
  /-- Whether it must be looked for again, as the shell has gone to another directory. -/
  isDoubtful : Bool
  deriving DecidableEq, Repr

structure Context where
  /-- What the shell is called in its messages. -/
  name : Octets
  arguments : List Octets
  settings : List Setting
  vars : List (Octets × Variable)
  /-- The bodies of functions. -/
  functions : List (Octets × Command)
  aliases : List (Octets × Octets)
  /-- How many calls of functions have begun and not ended. -/
  calls : Nat
  /-- What to go back to after each function that runs. -/
  frames : List Frame
  scanning : Scanning
  findings : List Finding
  status : Nat
  /-- The status of the last command substitution within a command. -/
  substitutionStatus : Nat
  /-- The number of the shell among all that were started. -/
  process : Nat
  /-- The numbers of the shells that wait for it, the nearest first. -/
  callers : List Nat
  /-- Whether it is a copy that a shell has made of itself. -/
  isCopy : Bool
  /-- The numbers of the commands in the background, the last first, and their status. -/
  jobs : List (Nat × Nat)
  lastJob : Option Nat
  /-- The line of the command that runs. -/
  line : Nat
  /-- The line that reading has come to. -/
  sourceLine : Nat
  /-- The name of the built-in command or program that runs. -/
  command : Option Octets
  /-- Where the shell has gone from its first directory. -/
  directory : Option Octets
  /-- The permissions that new files are not given. -/
  mask : Nat
  limits : List (Char × Octets)
  /-- The open file of each descriptor. -/
  descriptors : List (Nat × Nat)
  /-- What is to be done at a signal, and at the end, which counts as signal zero. -/
  traps : List (Nat × Octets)
  /-- The signals that the shell was started without. -/
  deafTo : List Nat
  /-- The signals that have come and at which nothing has been done yet. -/
  pending : List Nat
  /-- The status before what is done at a signal or the end. -/
  statusBefore : Option Nat
  loops : Nat
  skip : Option Skip
  documents : List (Nat × Word)
  nextDocument : Nat

/-- Where bytes come from and go to. -/
inductive Store where
  /-- Kept within the session. -/
  | kept (content : Octets)
  | file (p : FilePath)
  | device (p : FilePath)
  | directory

structure Open where
  store : Store
  position : Nat
  append : Bool
  readable : Bool
  writable : Bool

structure Session where
  context : Context
  opened : List Open
  /-- The number of the last shell or command in the background that was started. -/
  lastProcess : Nat
  /-- The signals that shells have been sent and have not received. -/
  signals : List (Nat × Nat)

/-- What was written to an open file that is kept within the session. -/
def Session.keptIn (s : Session) (number : Nat) : Octets :=
  match (s.opened[number]?).map Open.store with
  | some (.kept content) => content
  | _ => []

/-- How a command can end that lets no other follow. -/
inductive Interrupt where
  /-- The shell ends. -/
  | exit
  /-- A fault ends what does not withstand one. -/
  | fault
  /-- A signal ends the shell at once. -/
  | killed (signal : Nat)
  deriving DecidableEq, Repr

abbrev Eff (m : Type → Type) := ExceptT Interrupt (StateT Session m)

def Skip.isReturning : Skip → Bool
  | .returning _ => true
  | _ => false

namespace Context

def has (c : Context) (setting : Setting) : Bool := c.settings.contains setting

def set (c : Context) (setting : Setting) (on : Bool) : Context :=
  let others := c.settings.filter (· != setting)
  { c with settings := if on then setting :: others else others }

def lookup? (c : Context) (name : Octets) : Option Variable := c.vars.lookup name

def putVariable (c : Context) (name : Octets) (v : Option Variable) : Context :=
  let others := c.vars.filter (·.1 != name)
  { c with vars := v.toList.map (name, ·) ++ others }

def value? (c : Context) (name : Octets) : Option Octets := (c.lookup? name).bind (·.value)

/-- The characters between fields. -/
def separators (c : Context) : Octets :=
  (c.value? "IFS".toList).getD " \t\n".toList

end Context

variable {m : Type → Type} [Monad m]

/-! ### The context -/

def context : Eff m Context := do return (← get).context

def change (f : Context → Context) : Eff m Unit :=
  modify fun s => { s with context := f s.context }

def setStatus (n : Nat) : Eff m Unit := change ({ · with status := n })

/-- Runs an action and gives how it ended. -/
def attempt {α : Type} (action : Eff m α) : Eff m (Except Interrupt α) :=
  ExceptT.mk do return .ok (← action.run)

/-- Runs an action and what must come after it in any case. -/
def ensuring {α : Type} (action : Eff m α) (after : Eff m Unit) : Eff m α := do
  let result ← attempt action
  after
  match result with
  | .ok a => return a
  | .error e => throw e

/-- The number of what is started next. -/
def newProcess : Eff m Nat := do
  let s ← get
  MonadState.set { s with lastProcess := s.lastProcess + 1 }
  return s.lastProcess + 1

/-! ### Paths -/

/-- Where a path of the script leads. -/
def locate (name : Octets) : Eff m FilePath := do
  let p : FilePath := ⟨Shell.ofOctets name⟩
  match (← context).directory with
  | none => return p
  | some directory =>
    if name.isEmpty then return p else return p.within ⟨Shell.ofOctets directory⟩

end ThreeAddress.Shell
