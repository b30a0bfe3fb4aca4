import ThreeAddress.Shell.Octets

/-!
# Signals

Signals have numbers. Number zero, which is no signal, is used for the end of a shell.
-/

namespace ThreeAddress.Shell.Signal

/-- The signals that have names of their own. Some of those between have none. -/
def earlyNames : List String :=
  ["EXIT", "HUP", "INT", "QUIT", "ILL", "TRAP", "ABRT", "BUS", "FPE", "KILL", "USR1", "SEGV",
    "USR2", "PIPE", "ALRM", "TERM", "16", "CHLD", "CONT", "STOP", "TSTP", "TTIN", "TTOU", "URG",
    "XCPU", "XFSZ", "VTALRM", "PROF", "WINCH", "IO", "PWR", "SYS", "32", "33"]

/-- The signals without a purpose, which are counted from both ends. -/
def lateNames : List String :=
  ["RTMIN"] ++ (List.range 15).map (fun n => "RTMIN+" ++ toString (n + 1)) ++
    (List.range 14).map (fun n => "RTMAX-" ++ toString (14 - n)) ++ ["RTMAX"]

def names : List String := earlyNames ++ lateNames

def name (n : Nat) : String := names.getD n ""

def number? (text : Octets) : Option Nat :=
  if !text.isEmpty && text.all Char.isDigit then
    let n := Nat.ofDigitChars 10 text 0
    if n < names.length then some n else none
  else names.idxOf? (String.ofList (text.map Char.toUpper))

/-- A signal by its number or name, but not the end of a shell by its name. -/
def sendable? (text : Octets) : Option Nat :=
  if text.map Char.toUpper = "EXIT".toList then none else number? text

/-- The signals that nothing happens at unless it is asked for. -/
def isHarmless (n : Nat) : Bool :=
  ["EXIT", "CHLD", "CONT", "STOP", "TSTP", "TTIN", "TTOU", "URG", "WINCH"].contains (name n)

/-- The signals at which nothing can be asked for. -/
def isAbsolute (n : Nat) : Bool := ["KILL", "STOP"].contains (name n)

/-- What is said of a program that a signal has ended. Of some nothing is said. -/
def text? (n : Nat) : Option String :=
  match name n with
  | "HUP" => some "Hangup"
  | "INT" => none
  | "QUIT" => some "Quit"
  | "ILL" => some "Illegal instruction"
  | "TRAP" => some "Trace/breakpoint trap"
  | "ABRT" => some "Aborted"
  | "BUS" => some "Bus error"
  | "FPE" => some "Floating point exception"
  | "KILL" => some "Killed"
  | "USR1" => some "User defined signal 1"
  | "SEGV" => some "Segmentation fault"
  | "USR2" => some "User defined signal 2"
  | "PIPE" => none
  | "ALRM" => some "Alarm clock"
  | "TERM" => some "Terminated"
  | "16" => some "Stack fault"
  | "XCPU" => some "CPU time limit exceeded"
  | "XFSZ" => some "File size limit exceeded"
  | "VTALRM" => some "Virtual timer expired"
  | "PROF" => some "Profiling timer expired"
  | "IO" => some "I/O possible"
  | "PWR" => some "Power failure"
  | "SYS" => some "Bad system call"
  | _ => if n < 34 then some ("Unknown signal " ++ toString n)
    else some ("Real-time signal " ++ toString (n - 34))

end ThreeAddress.Shell.Signal
