/-!
# Options of a compilation
-/

namespace ThreeAddress

structure Options where
  /-- Fail on a branch whose target will not be declared; otherwise leave the branch as it can
  be. -/
  strict : Bool
  entry : String
  deriving DecidableEq, Repr

def Options.default : Options := ⟨true, "_start"⟩

end ThreeAddress
