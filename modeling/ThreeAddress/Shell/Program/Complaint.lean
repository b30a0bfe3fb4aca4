import ThreeAddress.Shell.Streams
import ThreeAddress.Shell.EscapeQuoted

/-!
# What programs complain of

Programs that do what built-in commands do have words of their own for what is wrong.
-/

namespace ThreeAddress.Shell.Program

open Files (Access)
open EscapeQuoted (quote)

inductive Complaint where
  | missingOperand
  | writeFailed (e : Files.Error)
  -- Of tests.
  | badInteger (text : Octets)
  | nothingAfter (word : Octets)
  | notUnary (word : Octets)
  | notBinary (word : Octets)
  | unclosed
  | notClosing (word : Octets)
  | noLength (operator : Octets)
  | extra (word : Octets)
  | missingBracket
  -- Of formats.
  | badDirective (directive : Octets)
  | notNumeric (text : Octets)
  | notAllNumeric (text : Octets)
  | outOfRange (text : Octets)
  | ignoredCharacters (text : Octets)
  | noDigits
  | badCharacter (name : Octets)
  | badWidth (text : Octets)
  | badPrecision (text : Octets)
  | tooLong
  | excess (text : Octets)
  deriving DecidableEq, Repr

def Complaint.text : Complaint → Octets
  | .missingOperand => "missing operand".toList
  | .writeFailed e => "write error: ".toList ++ Shell.octets e.reason
  | .badInteger text => "invalid integer ".toList ++ quote text
  | .nothingAfter word => "missing argument after ".toList ++ quote word
  | .notUnary word => quote word ++ ": unary operator expected".toList
  | .notBinary word => quote word ++ ": binary operator expected".toList
  | .unclosed => "')' expected".toList
  | .notClosing word => "')' expected, found ".toList ++ quote word
  | .noLength operator => operator ++ " does not accept -l".toList
  | .extra word => "extra argument ".toList ++ quote word
  | .missingBracket => "missing ']'".toList
  | .badDirective directive => directive ++ ": invalid conversion specification".toList
  | .notNumeric text => quote text ++ ": expected a numeric value".toList
  | .notAllNumeric text => quote text ++ ": value not completely converted".toList
  | .outOfRange text => quote text ++ ": Numerical result out of range".toList
  | .ignoredCharacters text =>
    "warning: ".toList ++ text ++
      ": character(s) following character constant have been ignored".toList
  | .noDigits => "missing hexadecimal number in escape".toList
  | .badCharacter name => "invalid universal character name \\".toList ++ name
  | .badWidth text => "invalid field width: ".toList ++ quote text
  | .badPrecision text => "invalid precision: ".toList ++ quote text
  | .tooLong =>
    "cannot perform formatted output: Value too large for defined data type".toList
  | .excess text => "warning: ignoring excess arguments, starting with ".toList ++ quote text

variable {m : Type → Type} [Monad m] [Access m]

/-- The name that a program was started by. -/
def name : Eff m Octets := do return (← context).command.getD []

/-- Says something in the name of the program that runs. -/
def say (text : Octets) : Eff m Unit := do report ((← name) ++ ": ".toList ++ text)

def complain (e : Complaint) : Eff m Unit := say e.text

def pointToHelp : Eff m Unit := do
  report ("Try '".toList ++ (← name) ++ " --help' for more information.".toList)

/-- Writes to standard output, which is all that can go wrong then. -/
def print (text : Octets) (status : Nat) : Eff m Nat := do
  match ← write 1 text with
  | .ok () => return status
  | .error e => do
    complain (.writeFailed e)
    return 1

end ThreeAddress.Shell.Program
