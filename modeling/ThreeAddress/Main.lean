import ThreeAddress.Cli.Run

/-!
# The command line

Runs the command that the arguments name on the files of the system.
-/

namespace ThreeAddress

open Files (FilePath)

def Files.Error.ofIO (e : IO.Error) : Files.Error :=
  match e with
  | .noFileOrDirectory .. => .notFound
  | .alreadyExists .. => .alreadyExists
  | .permissionDenied .. => .noPermission
  | .resourceExhausted _ code _ => if isNumber code 28 then .noSpace else .other (toString e)
  | .invalidArgument _ code _ => if isNumber code 36 then .nameTooLong else .other (toString e)
  | .inappropriateType _ code _ => if isNumber code 20 then .notDirectory else .isDirectory
  | e => .other (toString e)
where
  /-- The system's number may come with its sign changed. -/
  isNumber (code n : UInt32) : Bool := code = n || code = 0 - n

/-- Runs an action on a path that can name a file, and keeps its failure as a value. -/
def onFile {α : Type} (p : FilePath) (action : String → IO α) : IO (Except Files.Error α) := do
  if p.text.contains '\x00' then return .error .badName
  try return .ok (← action p.text)
  catch e => return .error (.ofIO e)

def kindOf : IO.FS.FileType → Files.Kind
  | .dir => .directory
  | .file => .file
  | .symlink => .link
  | .other => .device

/-- The one path of what is at a path, or of the link there. -/
def identityOf (follow : Bool) (name : String) : IO FilePath := do
  if follow then return ⟨(← IO.FS.realPath name).toString⟩
  else
    let path := System.mkFilePath [name]
    let parent ← IO.FS.realPath (path.parent.getD ".")
    return ⟨(parent / path.fileName.getD ".").toString⟩

def statusOf (follow : Bool) (name : String) : IO Files.Status := do
  let path := System.mkFilePath [name]
  let data ← if follow then path.metadata else path.symlinkMetadata
  let kind := kindOf data.type
  return {
    kind
    identity := ← identityOf follow name
    names := data.numLinks.toNat
    size := data.byteSize.toNat
    changed := data.modified.sec.toNat * 1000000000 + data.modified.nsec.toNat
    executable := kind = .directory }

def unsupported {α : Type} : IO (Except Files.Error α) := return .error .notSupported

instance : Files.Access IO where
  status follow p := onFile p (statusOf follow)
  read p := onFile p fun name => IO.FS.readBinFile name
  write p content := onFile p fun name => IO.FS.writeBinFile name content
  remove p := do
    match ← onFile p (statusOf false) with
    | .ok ⟨.directory, _, _, _, _, _⟩ => return .error .isDirectory
    | _ => onFile p fun name => IO.FS.removeFile name
  makeDirectory p := onFile p fun name => IO.FS.createDir name
  entries p := onFile p fun name => do
    return (← (← IO.FS.realPath name).readDir).toList.map (·.fileName)
  canonical p := onFile p (identityOf true)
  workingDirectory := do return ⟨(← IO.currentDir).toString⟩
  linkTarget _ := unsupported
  makeLink _ _ := unsupported
  share _ p q := onFile q fun name => IO.FS.hardLink p.text name
  rename p q := onFile q fun name => IO.FS.rename p.text name
  makeAlike _ _ := unsupported
  setChanged _ _ := unsupported

def hexByte (b : UInt8) : String :=
  String.ofList (Nat.toDigits 16 (256 + b.toNat)).tail

/-- An identifier that no other job has, but by the smallest of chances. -/
def freshId : IO String := do
  return String.join ((← IO.getRandomBytes 16).data.toList.map hexByte)

end ThreeAddress

open ThreeAddress in
def main (arguments : List String) : IO UInt32 := do
  let outcome ← Cli.run (← freshId) arguments
  IO.print outcome.out
  IO.eprint outcome.err
  return .ofNat outcome.status
