/-!
# Why a file operation fails
-/

namespace ThreeAddress.Files

inductive Error where
  | notFound
  | noPermission
  | alreadyExists
  | notDirectory
  | isDirectory
  | noSpace
  | nameTooLong
  | argumentsTooLong
  | tooManyLinks
  | notPermitted
  /-- There is nothing behind a device. -/
  | noDevice
  /-- There is no open file behind a number, or not for this. -/
  | notOpen
  | otherDevice
  | notSupported
  /-- The bytes are no UTF-8 text. -/
  | notText
  /-- The path holds a NUL character, which no file name can. -/
  | badName
  /-- Any other cause, in the words of the system. -/
  | other (text : String)
  deriving DecidableEq, Repr

namespace Error

/-- What went wrong, in words. -/
def reason : Error → String
  | .notFound => "No such file or directory"
  | .noPermission => "Permission denied"
  | .alreadyExists => "File exists"
  | .notDirectory => "Not a directory"
  | .isDirectory => "Is a directory"
  | .noSpace => "No space left on device"
  | .nameTooLong => "File name too long"
  | .argumentsTooLong => "Argument list too long"
  | .tooManyLinks => "Too many levels of symbolic links"
  | .notPermitted => "Operation not permitted"
  | .noDevice => "No such device or address"
  | .notOpen => "Bad file descriptor"
  | .otherDevice => "Invalid cross-device link"
  | .notSupported => "Operation not supported"
  | .notText => "stream did not contain valid UTF-8"
  | .badName => "file name contained an unexpected NUL byte"
  | .other text => text

/-- The number that the system has for the cause, if it is the system's. -/
def number? : Error → Option Nat
  | .notPermitted => some 1
  | .notFound => some 2
  | .noDevice => some 6
  | .argumentsTooLong => some 7
  | .notOpen => some 9
  | .noPermission => some 13
  | .alreadyExists => some 17
  | .otherDevice => some 18
  | .notDirectory => some 20
  | .isDirectory => some 21
  | .noSpace => some 28
  | .nameTooLong => some 36
  | .tooManyLinks => some 40
  | .notSupported => some 95
  | _ => none

def text (e : Error) : String :=
  match e.number? with
  | some n => e.reason ++ " (os error " ++ toString n ++ ")"
  | none => e.reason

end Error

end ThreeAddress.Files
