/-!
# Registers

The register file has no upper bound below `2 ^ 32`: each number names a 64-bit register and the
low half of it.
-/

namespace ThreeAddress.Assembly

inductive Register where
  /-- All 64 bits. -/
  | x (number : UInt32)
  /-- The low 32 bits. -/
  | w (number : UInt32)
  deriving DecidableEq, Repr

namespace Register

def number : Register → UInt32
  | .x n => n
  | .w n => n

def text : Register → String
  | .x n => "x" ++ toString n.toNat
  | .w n => "w" ++ toString n.toNat

/-- All full registers come before all halves; among the same view the number decides. -/
def le : Register → Register → Bool
  | .x m, .x n => m ≤ n
  | .x _, .w _ => true
  | .w _, .x _ => false
  | .w m, .w n => m ≤ n

def sort (rs : List Register) : List Register := rs.mergeSort le

end Register

end ThreeAddress.Assembly
