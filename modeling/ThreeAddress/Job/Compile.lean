import ThreeAddress.Files.Stream
import ThreeAddress.Generator
import ThreeAddress.Job.Config
import ThreeAddress.Job.Response

/-!
# Compile jobs

A job stages its source in a file of its own, has the front end leave a stream at the configured
path, and compiles that stream. A stream from an earlier job is removed first. The staged file is
removed however the job ends, and only a job that succeeds writes assembly.
-/

namespace ThreeAddress.Job

open Files (FilePath)

/-- Leaves a stream at the second path for the source staged at the first, or says why it could
not. -/
abbrev FrontEnd (m : Type → Type) := FilePath → FilePath → m (Except String Unit)

inductive Failure where
  | inputDirectory (p : FilePath) (e : Files.Error)
  | staging (e : Files.Error)
  | staleIr (p : FilePath) (e : Files.Error)
  | frontEnd (message : String)
  | unreadableIr (p : FilePath) (e : CompileError)
  | compile (e : CompileError)
  | output (p : FilePath) (e : Files.Error)
  deriving DecidableEq, Repr

def Failure.message : Failure → String
  | .inputDirectory p e => "Failed to create input directory " ++ p.text ++ ": " ++ e.text
  | .staging e => "Failed to save input file: " ++ e.text
  | .staleIr p e => "Failed to clear stale IR " ++ p.text ++ ": " ++ e.text
  | .frontEnd message => message
  | .unreadableIr p e => "Failed to read IR from " ++ p.text ++ ": " ++ e.message
  | .compile e => e.message
  | .output p e => "Failed to write output file " ++ p.text ++ ": " ++ e.text

def Response.ofResult : Except Failure String → Response
  | .ok assembly => ⟨assembly, true⟩
  | .error e => ⟨e.message, false⟩

/-- The name of the file that the job with this identifier stages its source in. -/
def stagedName (id : String) : String := "input_temp_" ++ id ++ ".c"

variable {m : Type → Type} [Monad m] [Files.Access m]

/-- Runs a file operation as a step of a job. -/
def attempt {α : Type} (failure : Files.Error → Failure) (operation : m (Except Files.Error α)) :
    ExceptT Failure m α :=
  ExceptT.mk do return (← operation).mapError failure

/-- It is no failure if there is no stream to remove. -/
def clearStale (p : FilePath) : ExceptT Failure m Unit :=
  ExceptT.mk do
    match ← Files.Access.remove p with
    | .ok () => return .ok ()
    | .error .notFound => return .ok ()
    | .error e => return .error (.staleIr p e)

/-- Compiles the stream in a file. -/
def compileFile (options : Options) (p : FilePath) : ExceptT Failure m String := do
  let report ← ExceptT.mk do return (← Report.load p).mapError (.unreadableIr p)
  match Program.generate options report.instructions with
  | .ok program => return program.text
  | .error e => throw (.compile e)

/-- What a job does between staging its source and removing it. -/
def translate (config : Config) (frontEnd : FrontEnd m) (staged : FilePath) :
    ExceptT Failure m String := do
  clearStale config.irPath
  ExceptT.mk do return (← frontEnd staged config.irPath).mapError .frontEnd
  let assembly ← compileFile config.options config.irPath
  attempt (.output config.outputPath) (Files.writeText config.outputPath assembly)
  return assembly

def compile (config : Config) (frontEnd : FrontEnd m) (id source : String) :
    ExceptT Failure m String := do
  attempt (.inputDirectory config.inputDirectory) (Files.makeDirectories config.inputDirectory)
  let staged := config.inputDirectory.join (stagedName id)
  attempt .staging (Files.createText staged source)
  ExceptT.mk do
    let result ← (translate config frontEnd staged).run
    let _ ← Files.Access.remove staged
    return result

def run (config : Config) (frontEnd : FrontEnd m) (id source : String) : m Response := do
  return Response.ofResult (← (compile config frontEnd id source).run)

end ThreeAddress.Job
