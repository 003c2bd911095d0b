import ComputeKernel.CommandLine.Folder
import ComputeKernel.CommandLine.Report
import ComputeKernel.CommandLine.Task
import ComputeKernel.Config.Json

/-!
# Carrying out a command line

A command line is carried out with the help of a host, which has the files, the adapter and the
front end. The kernel is read before its configuration. A command line that is misused ends with
code 2, and a task that fails with code 1.
-/

namespace ComputeKernel.CommandLine

open Shader

/-- What the program needs from the outside. -/
structure Host (m : Type → Type) where
  readFile : String → m (Except FileError (List UInt8))
  writeFile : String → String → m (Except FileError Unit)
  adapter : Option Device.Adapter
  frontEnd : FrontEnd

/-- What the program leaves behind: its exit code, its output, and why it failed. -/
structure Outcome where
  code : Nat
  output : String := ""
  failure : Option Failure := none
  log : List LogLine := []
  deriving DecidableEq, Repr

namespace Outcome

/-- What a result leaves behind. The log is shown if it is asked for. -/
def ofResult (verbose : Bool) (result : Except Failure String) (log : List LogLine) : Outcome :=
  let log := if verbose then log else []
  match result with
  | .ok output => { code := 0, output := output, log := log }
  | .error f => { code := 1, failure := some f, log := log }

/-- What is left behind where no task is carried out. -/
def ofStop : Stop → Outcome
  | .misuse => { code := 2 }
  | .help => { code := 0, output := helpText }
  | .version => { code := 0, output := versionText }

end Outcome

section Tasks

variable {m : Type → Type} [Monad m] (host : Host m)

/-- Reads a file as text. -/
def readText (path : String) : m (Except Failure String) := do
  match (← host.readFile path).bind decodeText with
  | .ok s => return .ok s
  | .error e => return .error (.configuration (.unreadableFile path e.message))

/-- Reads a configuration, which is the default one if no file is named. -/
def readConfig (path : Option String) (dialect : Option Dialect) : m (Except Failure Config) := do
  let config ← match path with
    | none => pure (.ok default)
    | some path =>
      match ← readText host path with
      | .ok s => pure ((Config.parse s).mapError .configuration)
      | .error f => pure (.error f)
  return config.map fun c => { c with dialect := dialect.getD c.dialect }

/-- Makes a program from a kernel body. -/
def buildProgram (input : BodyInput) : m (Except Failure Program × List LogLine) := do
  match ← readText host input.file with
  | .error f => return (.error f, [])
  | .ok body =>
    match ← readConfig host input.config input.dialect with
    | .error f => return (.error f, [])
    | .ok config =>
      return ((KernelSource.body (parseNames input.params) body).compile host.frontEnd
        config).outcome

/-- Writes a shader, or gives it to be printed. -/
def emitShader (output : Option String) (source : String) : m (Except Failure String) := do
  match output with
  | none => return .ok source
  | some path =>
    match ← host.writeFile path source with
    | .ok _ => return .ok ""
    | .error e => return .error (.configuration (.unwritableFile path e.message))

/-- Carries out a task. -/
def perform : Task → m (Except Failure String × List LogLine)
  | .compile input output => do
    match ← buildProgram host input with
    | (.error f, log) => return (.error f, log)
    | (.ok p, log) => return (← emitShader host output p.source, log)
  | .check input json => do
    let (result, log) ← buildProgram host input
    return (result.map (layoutReport json), log)
  | .checkShader file dialect json => do
    match ← readText host file with
    | .error f => return (.error f, [])
    | .ok text =>
      let (result, log) := (Program.ofLiteral host.frontEnd text dialect).outcome
      return (result.map (layoutReport json), log)
  | .info => do
    let options : Device.Options := { }
    match Device.request host.adapter options { }, host.adapter with
    | .ok d o, some a => return (.ok (adapterReport a options.target d), o.log)
    | .ok _ o, none => return (.error (.unavailable .noAdapter), o.log)
    | .error f o, _ => return (.error f, o.log)

/-- Carries out a command line. -/
def execute (words : List String) : m Outcome := do
  match parse words with
  | .error s => return .ofStop s
  | .ok invocation =>
    let (result, log) ← perform host invocation.task
    return .ofResult invocation.verbose result log

end Tasks

/-- What is written to the error stream about a failure. -/
def errorText (f : Failure) : String :=
  let diagnostics := match f.report.diagnostics? with
    | some d => [d]
    | none => []
  unlines (("Error: " ++ f.text) :: diagnostics)

section InMemory

/-- A host whose files are in memory. -/
def memoryHost (adapter : Option Device.Adapter) (frontEnd : FrontEnd) : Host (StateM Folder) where
  readFile path := do return (← get).read path
  writeFile path text := do
    match (← get).write path text.toUTF8.toList with
    | .ok folder => set folder; return .ok ()
    | .error e => return .error e
  adapter := adapter
  frontEnd := frontEnd

end InMemory

end ComputeKernel.CommandLine
