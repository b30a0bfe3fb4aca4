import ThreeAddress.Files.Access
import ThreeAddress.Json.Decode
import ThreeAddress.Json.Reader
import ThreeAddress.Options

/-!
# Job configuration

Where a job takes its front end from and where it puts its files. In a configuration file each
field may be left out and then has its default.
-/

namespace ThreeAddress.Job

open Files (FilePath)
open Json (Value)

structure Config where
  /-- The front end's command line, to which the staged source is appended. -/
  frontEnd : List String
  inputDirectory : FilePath
  irPath : FilePath
  outputPath : FilePath
  strict : Bool
  deriving DecidableEq, Repr

namespace Config

def default : Config := ⟨[], ⟨"input"⟩, ⟨"output/output.txt"⟩, ⟨"armv8_output.s"⟩, true⟩

def options (c : Config) : Options := { Options.default with strict := c.strict }

def toJson (c : Config) : Value :=
  .record [("frontend", .array (c.frontEnd.map .text)),
    ("input_dir", .text c.inputDirectory.text), ("ir_path", .text c.irPath.text),
    ("output_path", .text c.outputPath.text), ("strict_branches", .bool c.strict)]

/-- An absent field has its default; one that is there must be readable. -/
def orDefault? {α : Type} (absent : α) (decode : Value → Option α) : Option Value → Option α
  | none => some absent
  | some v => decode v

def ofJson? (v : Value) : Option Config :=
  let path? (v : Value) := v.text?.map FilePath.mk
  match v.partialRecord? ["frontend", "input_dir", "ir_path", "output_path", "strict_branches"] with
  | some [frontEnd, inputDirectory, irPath, outputPath, strict] => do
    return ⟨← orDefault? default.frontEnd (·.list? Value.text?) frontEnd,
      ← orDefault? default.inputDirectory path? inputDirectory,
      ← orDefault? default.irPath path? irPath,
      ← orDefault? default.outputPath path? outputPath,
      ← orDefault? default.strict Value.bool? strict⟩
  | _ => none

def ofText? (text : String) : Option Config :=
  Value.ofText? text >>= ofJson?

/-- Why a configuration file cannot be used. -/
inductive Failure where
  | unreadable (p : FilePath) (e : Files.Error)
  | invalid (p : FilePath)
  deriving DecidableEq, Repr

namespace Failure

/-- What failed, without the cause. -/
def summary : Failure → String
  | .unreadable p _ => "Failed to read config " ++ p.text
  | .invalid p => "Invalid config " ++ p.text

def message : Failure → String
  | .unreadable p e => (unreadable p e).summary ++ ": " ++ e.text
  | .invalid p => (invalid p).summary ++ ": not a job configuration"

end Failure

def load {m : Type → Type} [Monad m] [Files.Access m] (p : FilePath) :
    m (Except Failure Config) := do
  match ← Files.readText p with
  | .error e => return .error (.unreadable p e)
  | .ok text =>
    match ofText? text with
    | some c => return .ok c
    | none => return .error (.invalid p)

end Config

end ThreeAddress.Job
