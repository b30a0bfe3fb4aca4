import ThreeAddress.Files.Access

/-!
# What stands in a file tree
-/

namespace ThreeAddress.Files

inductive Device where
  /-- Takes everything and gives nothing. -/
  | null
  /-- Takes nothing. -/
  | full
  /-- Has nothing behind it. -/
  | terminal
  /-- Keeps what was written. -/
  | stream (written : ByteArray)

inductive Node where
  | file (content : ByteArray)
  | directory
  | device (d : Device)
  | link (target : FilePath)

namespace Node

def kind : Node → Kind
  | .file _ => .file
  | .directory => .directory
  | .device _ => .device
  | .link _ => .link

def size : Node → Nat
  | .file content => content.size
  | .directory => 4096
  | .device _ => 0
  | .link target => target.text.utf8ByteSize

/-- What can be read. -/
def content : Node → Except Error ByteArray
  | .file content => .ok content
  | .directory => .error .isDirectory
  | .device .terminal => .error .noDevice
  | .device _ => .ok .empty
  | .link _ => .error .tooManyLinks

/-- What stands where a file was to be written: that file with its new content, or a device, which
stays what it is. -/
def replaced (content : ByteArray) : Option Node → Except Error Node
  | none => .ok (.file content)
  | some (.file _) => .ok (.file content)
  | some .directory => .error .isDirectory
  | some (.link _) => .error .tooManyLinks
  | some (.device .null) => .ok (.device .null)
  | some (.device .full) => if content.isEmpty then .ok (.device .full) else .error .noSpace
  | some (.device .terminal) => .error .noDevice
  | some (.device (.stream written)) => .ok (.device (.stream (written ++ content)))

end Node

end ThreeAddress.Files
