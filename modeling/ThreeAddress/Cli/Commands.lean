import ThreeAddress.Cli.Arguments
import ThreeAddress.Job.FrontEnd
import ThreeAddress.Json.Writer

/-!
# Commands

A command answers with an exit status and what it prints. `generate` compiles one file; `job` stages
a source, runs its front end and prints the response as JSON. The log, which goes to standard error
before that, is left out.
-/

namespace ThreeAddress.Cli

open Files (FilePath)
open Job (Failure)

structure Outcome where
  status : Nat
  out : String
  err : String
  deriving DecidableEq, Repr

def Outcome.failed (doing message : String) : Outcome :=
  ⟨1, "", "Error " ++ doing ++ ": " ++ message ++ "\n"⟩

def versionText : String := "tacc 0.1.0\n"

def usageText : String :=
  "Usage: tacc [-v] generate INPUT [-o OUTPUT] [--lenient-branches] [--stdout]\n" ++
  "       tacc [-v] job SOURCE [-c CONFIG] [--frontend COMMAND]\n"

def Outcome.ofStop : Stop → Outcome
  | .help => ⟨0, usageText, ""⟩
  | .version => ⟨0, versionText, ""⟩
  | .misuse => ⟨2, "", usageText⟩

variable {m : Type → Type} [Monad m] [Files.Access m] [Job.Programs m]

/-- Compiles a file to standard output, or to the output path if there is one. The log, with its
warning of how many lines of the stream were skipped, is not part of what is modelled here. -/
def generate (input : FilePath) (output : Option FilePath) (options : Options) :
    ExceptT Failure m String := do
  let assembly ← Job.compileFile options input
  match output with
  | none => return assembly
  | some p => do
    Job.attempt (.output p) (Files.writeText p assembly)
    return "ARMv8 code written to " ++ p.text ++ ".\n"

def runGenerate (input output : FilePath) (lenient toStdout : Bool) : m Outcome := do
  let options := { Options.default with strict := !lenient }
  match ← (generate input (if toStdout then none else some output) options).run with
  | .ok text => return ⟨0, text, ""⟩
  | .error e => return .failed "generating assembly" e.message

/-- The configuration of a job, with the front end that the command line puts in its place. -/
def jobConfig (path : Option FilePath) (frontEnd : Option String) :
    m (Except Job.Config.Failure Job.Config) := do
  let loaded ← match path with
    | some p => Job.Config.load p
    | none => pure (.ok .default)
  let override (c : Job.Config) : Job.Config :=
    match frontEnd with
    | some line => { c with frontEnd := (Text.words line.toList).map String.ofList }
    | none => c
  return loaded.map override

def runJob (id : String) (source : FilePath) (config : Option FilePath) (frontEnd : Option String) :
    m Outcome := do
  match ← jobConfig config frontEnd with
  | .error e => return .failed "running job" e.message
  | .ok config =>
    match ← Files.readText source with
    | .error e =>
      return .failed "running job" ("Failed to read " ++ source.text ++ ": " ++ e.text)
    | .ok text =>
      match Job.FrontEnd.ofCommand? config.frontEnd with
      | none => return .failed "running job" Job.noFrontEnd
      | some frontEnd =>
        let response ← Job.run config frontEnd id text
        return ⟨if response.success then 0 else 1, response.toJson.pretty ++ "\n", ""⟩

def runCommand (id : String) : Command → m Outcome
  | .generate input output lenient toStdout => runGenerate input output lenient toStdout
  | .job source config frontEnd => runJob id source config frontEnd

/-- Runs the command that the arguments name; a job takes the identifier given. -/
def run (id : String) (words : List String) : m Outcome :=
  match Arguments.ofList words with
  | .error stop => return .ofStop stop
  | .ok arguments => runCommand id arguments.command

end ThreeAddress.Cli
