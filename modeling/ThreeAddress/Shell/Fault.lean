import ThreeAddress.Files.Error
import ThreeAddress.Shell.Arithmetic
import ThreeAddress.Shell.Source

/-!
# Faults

Why a command of a script fails, and in which words the shell says so.
-/

namespace ThreeAddress.Shell

inductive Fault where
  | misread (e : Misreading)
  | badSubstitution
  | notSet (name : Octets)
  | notSetOrNull (name : Octets)
  /-- In the words of the script itself. -/
  | demanded (name message : Octets)
  | arithmetic (e : ArithmeticFault) (text : Octets)
  | badName (name : Octets)
  | readOnly (name : Octets)
  | badNumber (text : Octets)
  | badOption (letter : Char)
  | badLongOption (name : Octets)
  | missingArgument (option : Char)
  | missingCommand
  | cannotOpen (name : Octets) (e : Files.Error)
  | cannotCreate (name : Octets) (e : Files.Error)
  | badDescriptorNumber
  | notOpen (fd : Octets)
  | cannotRun (name : Octets) (e : Files.Error)
  | notFound (name : Octets)
  | cannotChangeDirectory (name : Octets)
  | cannotShift
  | notInFunction
  | tooManyCalls (limit : Nat)
  | writeFailed (command : Octets)
  /-- An operand of a test with another after it where none can be. -/
  | strayOperand (operand : Octets)
  | missingOperand (operator : Octets)
  | unclosedTest
  | missingBracket
  | noFormat
  | unfinishedFormat
  | badDirective (directive : Octets)
  /-- A width or precision that no output can have. -/
  | tooWide
  | notNumeric (text : Octets)
  | notAllNumeric (text : Octets)
  | outOfRange (text : Octets)
  | missingNames
  | badMode (text : Octets)
  | noLimit
  | tooManyArguments
  | limitRefused
  | noOptionsGiven
  | noCurrentJob
  | noPreviousJob
  | noSuchJob (name : Octets)
  | nothingToKill
  | badSignal (name : Octets)
  | noSignalOf (status : Octets)
  | noProcess
  | noTerminal

namespace Fault

/-- A missing file, in the words for what was to be done with it. -/
def fileReason (missing : String) (e : Files.Error) : Octets :=
  match e with
  | .notFound => missing.toList
  | .notDirectory => missing.toList
  | e => Shell.octets e.reason

def arithmeticText (e : ArithmeticFault) (text : Octets) : Octets :=
  let problem (p : String) : Octets :=
    "arithmetic expression: ".toList ++ p.toList ++ ": \"".toList ++ text ++ ['"']
  match e with
  | .noPrimary => problem "expecting primary"
  | .noEnd => problem "expecting EOF"
  | .noColon => problem "expecting ':'"
  | .noParenthesis => problem "expecting ')'"
  | .divisionByZero => problem "division by zero"
  | .badNumber value => "Illegal number: ".toList ++ value
  | .readOnly name => name ++ ": is read only".toList

def text : Fault → Octets
  | .misread e => "Syntax error: ".toList ++ e.text.toList
  | .badSubstitution => "Bad substitution".toList
  | .notSet name => name ++ ": parameter not set".toList
  | .notSetOrNull name => name ++ ": parameter not set or null".toList
  | .demanded name message => name ++ ": ".toList ++ message
  | .arithmetic e text => arithmeticText e text
  | .badName name => name ++ ": bad variable name".toList
  | .readOnly name => name ++ ": is read only".toList
  | .badNumber text => "Illegal number: ".toList ++ text
  | .badOption letter => "Illegal option -".toList ++ [letter]
  | .badLongOption name => "Illegal option -o ".toList ++ name
  | .missingArgument option => "No arg for -".toList ++ [option] ++ " option".toList
  | .missingCommand => "-c requires an argument".toList
  | .cannotOpen name e => "cannot open ".toList ++ name ++ ": ".toList ++ fileReason "No such file" e
  | .cannotCreate name e =>
    "cannot create ".toList ++ name ++ ": ".toList ++ fileReason "Directory nonexistent" e
  | .badDescriptorNumber => "Syntax error: Bad fd number".toList
  | .notOpen fd => fd ++ ": Bad file descriptor".toList
  | .cannotRun name e => name ++ ": ".toList ++ fileReason "not found" e
  | .notFound name => name ++ ": not found".toList
  | .cannotChangeDirectory name => "can't cd to ".toList ++ name
  | .cannotShift => "can't shift that many".toList
  | .notInFunction => "not in a function".toList
  | .tooManyCalls limit =>
    "Maximum function recursion depth (".toList ++ natOctets limit ++ ") reached".toList
  | .writeFailed command => command ++ ": I/O error".toList
  | .strayOperand [] => "unexpected operator".toList
  | .strayOperand operand => operand ++ ": unexpected operator".toList
  | .missingOperand operator => operator ++ ": argument expected".toList
  | .unclosedTest => "closing paren expected".toList
  | .missingBracket => "missing ]".toList
  | .noFormat => "usage: printf format [arg ...]".toList
  | .unfinishedFormat => "missing format character".toList
  | .badDirective directive => directive ++ ": invalid directive".toList
  | .tooWide => "xvsnprintf failed".toList
  | .notNumeric text => text ++ ": expected numeric value".toList
  | .notAllNumeric text => text ++ ": not completely converted".toList
  | .outOfRange text => text ++ ": Numerical result out of range".toList
  | .missingNames => "arg count".toList
  | .badMode text => "Illegal mode: ".toList ++ text
  | .noLimit => "bad number".toList
  | .tooManyArguments => "too many arguments".toList
  | .limitRefused => "error setting limit: Invalid argument".toList
  | .noOptionsGiven => "Usage: getopts optstring var [arg...]".toList
  | .noCurrentJob => "No current job".toList
  | .noPreviousJob => "No previous job".toList
  | .noSuchJob name => "No such job: ".toList ++ name
  | .nothingToKill =>
    ("Usage: kill [-s sigspec | -signum | -sigspec] [pid | job]... or\n" ++
      "kill -l [exitstatus]").toList
  | .badSignal name => "invalid signal number or name: ".toList ++ name
  | .noSignalOf status => "invalid signal number or exit status: ".toList ++ status
  | .noProcess => "No such process\n".toList
  | .noTerminal => "can't access tty; job control turned off".toList

end Fault

end ThreeAddress.Shell
