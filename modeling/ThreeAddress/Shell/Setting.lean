/-!
# Settings

What a shell can be told to do differently. Most settings have a letter, all have a name.
-/

namespace ThreeAddress.Shell

inductive Setting where
  | errexit
  | noglob
  | ignoreeof
  | interactive
  | monitor
  | noexec
  | stdin
  | xtrace
  | verbose
  | vi
  | emacs
  | noclobber
  | allexport
  | notify
  | nounset
  | privileged
  | nolog
  | debug
  deriving DecidableEq, Repr

namespace Setting

def all : List Setting :=
  [.errexit, .noglob, .ignoreeof, .interactive, .monitor, .noexec, .stdin, .xtrace, .verbose, .vi,
    .emacs, .noclobber, .allexport, .notify, .nounset, .privileged, .nolog, .debug]

def name : Setting → String
  | .errexit => "errexit"
  | .noglob => "noglob"
  | .ignoreeof => "ignoreeof"
  | .interactive => "interactive"
  | .monitor => "monitor"
  | .noexec => "noexec"
  | .stdin => "stdin"
  | .xtrace => "xtrace"
  | .verbose => "verbose"
  | .vi => "vi"
  | .emacs => "emacs"
  | .noclobber => "noclobber"
  | .allexport => "allexport"
  | .notify => "notify"
  | .nounset => "nounset"
  | .privileged => "privileged"
  | .nolog => "nolog"
  | .debug => "debug"

def letter? : Setting → Option Char
  | .errexit => some 'e'
  | .noglob => some 'f'
  | .ignoreeof => some 'I'
  | .interactive => some 'i'
  | .monitor => some 'm'
  | .noexec => some 'n'
  | .stdin => some 's'
  | .xtrace => some 'x'
  | .verbose => some 'v'
  | .vi => some 'V'
  | .emacs => some 'E'
  | .noclobber => some 'C'
  | .allexport => some 'a'
  | .notify => some 'b'
  | .nounset => some 'u'
  | .privileged => some 'p'
  | .nolog => none
  | .debug => none

def ofLetter? (c : Char) : Option Setting := all.find? (·.letter? = some c)

def ofName? (name : String) : Option Setting := all.find? (·.name = name)

/-- The settings that the letter of a setting turns off: there is one way to edit lines at a time. -/
def excludes : Setting → List Setting
  | .vi => [.emacs]
  | .emacs => [.vi]
  | _ => []

/-- How two columns are set: what is on, and what is off. -/
def table (on : List Setting) : String :=
  "Current option settings\n" ++ String.join (all.map fun s =>
    s.name ++ String.ofList (List.replicate (16 - s.name.length) ' ') ++
      (if on.contains s then "on\n" else "off\n"))

/-- The commands that lead to the settings as they are. -/
def commands (on : List Setting) : String :=
  String.join (all.map fun s => (if on.contains s then "set -o " else "set +o ") ++ s.name ++ "\n")

end Setting

end ThreeAddress.Shell
