import ThreeAddress.CompileError
import ThreeAddress.Files.Access
import ThreeAddress.Report

/-!
# Streams in files
-/

namespace ThreeAddress

def Report.load {m : Type → Type} [Monad m] [Files.Access m] (p : Files.FilePath) :
    m (Except CompileError Report) := do
  match ← Files.readText p with
  | .error e => return .error (.io e.text)
  | .ok text => return .ok (Report.ofText p.text text)

end ThreeAddress
