import ThreeAddress.Cli.Commands
import ThreeAddress.Files.System
import ThreeAddress.Shell.Start

/-!
# Running commands on a system

The programs that a front end can be are those of a system with a shell. What is proved about jobs
holds for any programs.
-/

namespace ThreeAddress.Cli

instance {m : Type → Type} [Monad m] [Files.Access m] : Job.Programs m := ⟨Shell.start⟩

end ThreeAddress.Cli
