import ThreeAddress.Shell.Session

/-!
# Streams

Descriptors and the open files behind them. A file is written at the place that its open file has
come to, over what is there; what a script shows to its caller is kept in the session.
-/

namespace ThreeAddress.Shell

open Files (Access FilePath)

variable {m : Type → Type} [Monad m] [Access m]

/-! ### Open files -/

/-- The number of the open file behind a descriptor. -/
def descriptor? (fd : Nat) : Eff m (Option Nat) := do
  return (← context).descriptors.lookup fd

def setDescriptor (fd : Nat) (number : Option Nat) : Eff m Unit :=
  change fun c =>
    { c with
      descriptors := number.toList.map (fd, ·) ++ c.descriptors.filter (·.1 != fd) }

def addOpen (o : Open) : Eff m Nat := do
  let s ← get
  set { s with opened := s.opened ++ [o] }
  return s.opened.length

def opened? (fd : Nat) : Eff m (Option Open) := do
  match ← descriptor? fd with
  | some number => return (← get).opened[number]?
  | none => return none

def setOpen (number : Nat) (o : Open) : Eff m Unit :=
  modify fun s => { s with opened := s.opened.set number o }

/-! ### Reading -/

/-- All that a store holds. -/
def Store.content (store : Store) : Eff m Octets := do
  match store with
  | .kept content => return content
  | .directory => return []
  | .file p => fileContent p
  | .device p => fileContent p
where
  fileContent (p : FilePath) : Eff m Octets := do
    let result ← (Access.read p : m _)
    return Shell.octetsOfBytes (result.toOption.getD .empty)

/-- What is left to be read, as much of it as is taken. -/
def readWith (fd : Nat) (take : Octets → Octets) : Eff m Octets := do
  match ← descriptor? fd with
  | none => return []
  | some number =>
    match (← get).opened[number]? with
    | none => return []
    | some o =>
      if !o.readable then return []
      else
        let taken := take ((← o.store.content).drop o.position)
        setOpen number { o with position := o.position + taken.length }
        return taken

def readAll (fd : Nat) : Eff m Octets := readWith fd id

/-- The first line of a text with the newline that ends it, if there is one. -/
def firstLine (text : Octets) : Octets :=
  let line := text.takeWhile (· != '\n')
  line ++ (text.drop line.length).take 1

def readLine (fd : Nat) : Eff m Octets := readWith fd firstLine

/-! ### Writing -/

/-- A text with a part written over it from a position on. -/
def overwrite (content : Octets) (position : Nat) (part : Octets) : Octets :=
  content.take position ++ List.replicate (position - content.length) '\x00' ++ part ++
    content.drop (position + part.length)

def writeOpen (number : Nat) (bytes : Octets) : Eff m (Except Files.Error Unit) := do
  match (← get).opened[number]? with
  | none => return .error .notOpen
  | some o =>
    if !o.writable then return .error .notOpen
    else
      match o.store with
      | .directory => return .error .notOpen
      | .kept content => do
        setOpen number { o with store := .kept (content ++ bytes) }
        return .ok ()
      | .device p => return (← (Access.write p ⟨(Shell.bytesOf bytes).toArray⟩ : m _))
      | .file p => do
        let before ← o.store.content
        let position := if o.append then before.length else o.position
        let after := overwrite before position bytes
        let result ← (Access.write p ⟨(Shell.bytesOf after).toArray⟩ : m _)
        setOpen number { o with position := position + bytes.length }
        return result

def write (fd : Nat) (bytes : Octets) : Eff m (Except Files.Error Unit) := do
  if bytes.isEmpty then return .ok ()
  else
    match ← descriptor? fd with
    | some number => writeOpen number bytes
    | none => return .error .notOpen

/-- Writes, and says whether that could be done. -/
def emit (fd : Nat) (bytes : Octets) : Eff m Bool := do
  return (← write fd bytes).toOption.isSome

/-- A line on standard error, if there is one. -/
def report (line : Octets) : Eff m Unit := do
  let _ ← emit 2 (line ++ ['\n'])

/-- A message of the shell, with its name, the line and the command that runs. -/
def warn (f : Fault) : Eff m Unit := do
  let c ← context
  let command := c.command.elim [] (· ++ ": ".toList)
  report (c.name ++ ": ".toList ++ natOctets c.line ++ ": ".toList ++ command ++ f.text)

def fail {α : Type} (f : Fault) : Eff m α := do
  warn f
  setStatus 2
  throw .fault

/-! ### Opening -/

/-- The descriptor that a path stands for. -/
def pathDescriptor? (name : Octets) : Option Nat :=
  match String.ofList name with
  | "/dev/stdin" => some 0
  | "/dev/stdout" => some 1
  | "/dev/stderr" => some 2
  | text =>
    ["/dev/fd/", "/proc/self/fd/"].findSome? fun directory =>
      if text.startsWith directory then (text.drop directory.length).toString.toNat? else none

/-- What is known of what a name of the script leads to, which may be an open file. -/
def inspect (follow : Bool) (name : Octets) : Eff m (Except Files.Error Files.Status) := do
  match pathDescriptor? name with
  | none => return (← (Access.status follow (← locate name) : m _))
  | some fd => do
    match ← descriptor? fd, ← opened? fd with
    | some number, some o =>
      let known (kind : Files.Kind) : Files.Status :=
        { kind, identity := ⟨"pipe:" ++ toString number⟩, names := 1, size := 0, changed := 0,
          executable := false }
      if !follow then return .ok (known .link)
      else
        match o.store with
        | .file p => return (← (Access.status true p : m _))
        | .device p => return (← (Access.status true p : m _))
        | .directory => return .ok (known .directory)
        | .kept _ => return .ok (known .pipe)
    | _, _ => return .error .notFound

/-- Why there is nothing to open at a path, or of which kind it is. -/
def examine (p : FilePath) : m (Except Files.Error Files.Kind) := do
  return (← Access.status true p).map (·.kind)

/-- The canonical form of a path that can be resolved. -/
def settled (p : FilePath) : m FilePath := do
  return (← Access.canonical p).toOption.getD p

/-- Opens what is at a path. Output empties a file. -/
def openPath (opening : Opening) (p : FilePath) : m (Except Files.Error Open) := do
  let reads := opening == .input || opening == .both
  let writes := opening != .input
  let found ← examine p
  match found with
  | .ok .device =>
    -- A device with nothing behind it cannot be opened at all.
    return (← Access.read p).map fun _ => ⟨.device p, 0, false, reads, writes⟩
  | .ok .directory =>
    if writes then return .error .isDirectory else return .ok ⟨.directory, 0, false, true, false⟩
  | .ok _ =>
    if opening == .output || opening == .replace then
      match ← Access.write p .empty with
      | .error e => return .error e
      | .ok () => return .ok ⟨.file (← settled p), 0, false, false, true⟩
    else return .ok ⟨.file (← settled p), 0, opening == .append, reads, writes⟩
  | .error e =>
    if writes then
      match ← Access.write p .empty with
      | .error e => return .error e
      | .ok () => return .ok ⟨.file (← settled p), 0, opening == .append, reads, true⟩
    else return .error e

/-- Opens a file by the name that a script gives it, which may stand for a descriptor. -/
def openNamed (opening : Opening) (name : Octets) : Eff m (Except Files.Error Nat) := do
  match pathDescriptor? name with
  | none => do
    match ← (openPath opening (← locate name) : m _) with
    | .ok o => return .ok (← addOpen o)
    | .error e => return .error e
  | some fd => do
    match ← descriptor? fd, ← opened? fd with
    | some number, some o =>
      match o.store with
      | .file p => again p
      | .device p => again p
      | _ => return .ok number
    | _, _ => return .error .notFound
where
  again (p : FilePath) : Eff m (Except Files.Error Nat) := do
    match ← (openPath opening p : m _) with
    | .ok o => return .ok (← addOpen o)
    | .error e => return .error e

end ThreeAddress.Shell
