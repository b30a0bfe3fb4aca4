import ThreeAddress.Shell.Copy.Run
import ThreeAddress.Shell.Program.Printing
import ThreeAddress.Shell.Program.Testing

/-!
# Programs

What can be run that is no part of the shell. A program is looked for in the directories of a search
path, unless its name says where it is. Some programs do what built-in commands do too, with words
of their own for what is wrong.
-/

namespace ThreeAddress.Shell

open Files (Access FilePath)

inductive Program where
  | copy
  | echo
  | failure
  | printf
  | shell
  | success
  | test
  /-- The test that ends in a bracket. -/
  | bracket
  deriving DecidableEq, Repr

namespace Program

def ofName? : String → Option Program
  | "cp" => some .copy
  | "echo" => some .echo
  | "false" => some .failure
  | "printf" => some .printf
  | "sh" => some .shell
  | "dash" => some .shell
  | "true" => some .success
  | "test" => some .test
  | "[" => some .bracket
  | _ => none

/-- The program that stands at a path. -/
def ofPath? (p : FilePath) : Option Program :=
  match p.isAbsolute, p.plainSteps with
  | true, ["bin", name] => ofName? name
  | true, ["usr", "bin", name] => ofName? name
  | _, _ => none

/-! ### Search -/

variable {m : Type → Type} [Monad m] [Access m]

/-- What there is to run at a path. -/
def examine (p : FilePath) : m (Except Files.Error Program) := do
  match ← Shell.examine p, ofPath? (← settled p) with
  | .error e, _ => return .error e
  | .ok .file, some program => return .ok program
  | .ok _, _ => return .error .noPermission

/-- The first path to what is wanted that a name has in some directories. Of reasons why there is
none the last counts, but for the mere absence of a file. -/
def search {α : Type} (wanted : Octets → m (Except Files.Error α)) (name : Octets) :
    Files.Error → List Octets → m (Except Files.Error Octets)
  | e, [] => return .error e
  | e, directory :: directories => do
    let path := if directory.isEmpty then name else directory ++ '/' :: name
    match ← wanted path with
    | .ok _ => return .ok path
    | .error .notFound => search wanted name e directories
    | .error .notDirectory => search wanted name e directories
    | .error e => search wanted name e directories

def defaultPath : Octets :=
  "/usr/local/sbin:/usr/local/bin:/usr/sbin:/usr/bin:/sbin:/bin".toList

def examineAt (path : Octets) : Eff m (Except Files.Error Program) := do
  return (← (examine (← locate path) : m _))

def findIn (path name : Octets) : Eff m (Except Files.Error Octets) :=
  search examineAt name .notFound (path.splitOn ':')

/-- The status when a program cannot be run. -/
def statusOf : Files.Error → Nat
  | .notFound => 127
  | .notDirectory => 127
  | .nameTooLong => 127
  | _ => 126

/-- Does what a program does. How a shell is run is told. -/
def perform (shell : List Octets → Eff m Nat) (p : Program) (arguments : List Octets) : Eff m Nat :=
  match p with
  | .copy => Copy.run arguments
  | .echo => print (echoText arguments) 0
  | .failure => return 1
  | .printf => Printing.run arguments
  | .shell => shell arguments
  | .success => return 0
  | .test => Testing.run arguments
  | .bracket => Testing.runBracketed arguments

/-- Runs a program under a name. It has a context of its own and ends whatever happens in it. -/
def run (shell : Octets → List Octets → Eff m Nat) (p : Program) (name : Octets)
    (arguments : List Octets) : Eff m Nat := do
  let before ← context
  change ({ · with command := some name })
  let result ← attempt (perform (shell name) p arguments)
  let after ← context
  change fun _ => before
  match result with
  | .ok status => return status
  | .error (.killed signal) => throw (.killed signal)
  | .error _ => return after.status

end Program

end ThreeAddress.Shell
