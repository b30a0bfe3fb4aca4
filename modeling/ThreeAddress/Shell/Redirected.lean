import ThreeAddress.Shell.Expansion

/-!
# Redirections

The words of all redirections of a command are expanded before the first of them is made. They are
undone after the command, descriptor by descriptor.
-/

namespace ThreeAddress.Shell

open Files (Access)

/-- A redirection whose words have been expanded. -/
inductive Rerouting where
  | file (fd : Nat) (opening : Opening) (name : Octets)
  | copy (fd source : Nat)
  | close (fd : Nat)
  | document (fd number : Nat)
  deriving DecidableEq, Repr

namespace Rerouting

def fd : Rerouting → Nat
  | .file fd _ _ => fd
  | .copy fd _ => fd
  | .close fd => fd
  | .document fd _ => fd

variable {m : Type → Type} [Monad m] [Access m]

section

variable (substitute : Option Command → Eff m Octets)

def ofRedirection : Redirection → Eff m Rerouting
  | .file fd opening target => do
    return .file fd opening (← expandText substitute .single target)
  | .document fd number => return .document fd number
  | .duplicate fd source => do
    match ← expandFields substitute [source] with
    | ['-'] :: _ => return .close fd
    | [c] :: _ => if c.isDigit then return .copy fd (c.toNat - '0'.toNat) else refuse
    | _ => refuse
where
  refuse : Eff m Rerouting := do
    change fun c => { c with line := c.sourceLine }
    fail .badDescriptorNumber

/-- Whether a file is to be kept from being replaced. -/
def isProtected (opening : Opening) (name : Octets) : Eff m Bool := do
  if opening = .output && (← context).has .noclobber && (pathDescriptor? name).isNone then
    return (← (Files.kind? (← locate name) : m _)) = some .file
  else return false

/-- Makes a redirection. If the descriptor is kept for later, nothing is behind it while it becomes a
copy of another. -/
def make (kept : Bool) : Rerouting → Eff m Unit
  | .file fd opening name => do
    if ← isProtected opening name then fail (.cannotCreate name .alreadyExists)
    match ← openNamed opening name with
    | .ok number => setDescriptor fd (some number)
    | .error e => fail (if opening = .input then .cannotOpen name e else .cannotCreate name e)
  | .copy fd source => do
    if fd ≠ source then
      let number ← descriptor? source
      if kept || number.isSome then setDescriptor fd number
      if number.isNone then fail (.notOpen (natOctets source))
  | .close fd => setDescriptor fd none
  | .document fd number => do
    let w := ((← context).documents.lookup number).getD []
    let text ← expandText substitute { Mode.text with quoted := true } w
    setDescriptor fd (some (← addOpen ⟨.kept text, 0, false, true, false⟩))

/-- Makes redirections up to the first that fails, and says whether none did. -/
def makeAll (rs : List Rerouting) : Eff m Bool := do
  match ← attempt (rs.forM (make substitute true)) with
  | .ok () => return true
  | .error .fault => return false
  | .error e => throw e

/-- Runs an action on redirected descriptors, which are what they were after it unless they are to
stay. The action is told whether all redirections were made. -/
def around {α : Type} (rs : List Rerouting) (stay : Bool) (action : Bool → Eff m α) : Eff m α := do
  let before := (← context).descriptors
  let isChanged (fd : Nat) : Bool := rs.any (·.fd = fd)
  let undo : Eff m Unit := change fun c =>
    { c with
      descriptors := before.filter (isChanged ·.1) ++ c.descriptors.filter (!isChanged ·.1) }
  let made ← makeAll substitute rs
  if stay then action made else ensuring (action made) undo

end

end Rerouting

end ThreeAddress.Shell
