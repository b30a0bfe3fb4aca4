import ThreeAddress.Shell.Builtin.Aliases
import ThreeAddress.Shell.Builtin.Directory
import ThreeAddress.Shell.Builtin.Flow
import ThreeAddress.Shell.Builtin.Input
import ThreeAddress.Shell.Builtin.Limits
import ThreeAddress.Shell.Builtin.Output
import ThreeAddress.Shell.Builtin.Settings
import ThreeAddress.Shell.Builtin.Traps

/-!
# Built-in commands

The commands that are part of the shell and need not run others. Each gives a status; those that
bear on what comes next say so in the context.
-/

namespace ThreeAddress.Shell

open Files (Access)

variable {m : Type → Type} [Monad m] [Access m]

/-- The built-in commands that run no others. -/
def builtin? (name : String) : Option (List Octets → Eff m Nat) :=
  match name with
  | ":" => some fun _ => return 0
  | "true" => some fun _ => return 0
  | "false" => some fun _ => return 1
  | "alias" => some Builtin.alias'
  | "bg" => some Builtin.resume
  | "break" => some (Builtin.leave .leaving)
  | "cd" => some Builtin.cd
  | "chdir" => some Builtin.cd
  | "continue" => some (Builtin.leave .continuing)
  | "echo" => some fun arguments => Builtin.print (echo arguments)
  | "exit" => some Builtin.exit
  | "export" => some Builtin.export'
  | "fg" => some Builtin.resume
  | "getopts" => some Builtin.getopts
  | "jobs" => some Builtin.jobs
  | "kill" => some Builtin.kill
  | "local" => some Builtin.local'
  | "printf" => some Builtin.printf
  | "pwd" => some Builtin.pwd
  | "read" => some Builtin.read
  | "readonly" => some Builtin.readonly
  | "return" => some Builtin.return'
  | "set" => some Builtin.set'
  | "shift" => some Builtin.shift
  | "test" => some Builtin.test
  | "[" => some Builtin.bracket
  | "times" => some fun _ => Builtin.times
  | "trap" => some Builtin.trap
  | "ulimit" => some Builtin.ulimit
  | "umask" => some Builtin.umask
  | "unalias" => some Builtin.unalias
  | "unset" => some Builtin.unset'
  | "wait" => some Builtin.wait
  | _ => none

end ThreeAddress.Shell
