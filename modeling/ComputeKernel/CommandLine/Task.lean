import ComputeKernel.CommandLine.Options

/-!
# Tasks

The commands of the program: a kernel body is compiled or checked, a complete shader is checked,
and the adapter is shown. Flags in front of the command hold for every command.
-/

namespace ComputeKernel.CommandLine

/-- A kernel body with what its command line says about it. -/
structure BodyInput where
  file : String
  params : String
  config : Option String
  dialect : Option Dialect
  deriving DecidableEq, Repr

inductive Task where
  | compile (input : BodyInput) (output : Option String)
  | check (input : BodyInput) (json : Bool)
  | checkShader (file : String) (dialect : Dialect) (json : Bool)
  | info
  deriving DecidableEq, Repr

/-- A task, and whether its log is shown. -/
structure Invocation where
  task : Task
  verbose : Bool
  deriving DecidableEq, Repr

/-- The names of tasks. -/
inductive TaskName where
  | compile
  | check
  | checkShader
  | info
  deriving DecidableEq, Repr

namespace TaskName

def ofName? : String → Option TaskName
  | "compile" => some compile
  | "check" => some check
  | "check-shader" => some checkShader
  | "info" => some info
  | _ => none

/-- The flags that every task has. -/
def shared : List Switch := [.flag .verbose, .flag .help]

def grammar : TaskName → Grammar
  | compile =>
    ⟨[.setting .params, .setting .config, .setting .target, .setting .output] ++ shared, true⟩
  | check =>
    ⟨[.setting .params, .setting .config, .setting .target, .flag .json] ++ shared, true⟩
  | checkShader => ⟨[.setting .target, .flag .json] ++ shared, true⟩
  | info => ⟨shared, false⟩

end TaskName

namespace Found

def dialect? (x : Found) : Option Dialect := (x.get? .target).bind Dialect.ofName?

/-- The body of a task that has one. Its file and its parameters have to be named. -/
def body? (x : Found) : Option BodyInput := do
  let file ← x.file
  let params ← x.get? .params
  return ⟨file, params, x.get? .config, x.dialect?⟩

/-- The task that is asked for. -/
def task? (x : Found) : TaskName → Option Task
  | .compile => x.body?.map (.compile · (x.get? .output))
  | .check => x.body?.map (.check · (x.flags.contains .json))
  | .checkShader =>
    x.file.map fun file => .checkShader file (x.dialect?.getD .wgsl) (x.flags.contains .json)
  | .info => some .info

end Found

/-- What may stand in front of a command. -/
def rootGrammar : Grammar := ⟨[.flag .verbose, .flag .help, .flag .version], false⟩

/-- Reads the command line of a task. -/
def parseTask (name : TaskName) (verbose : Bool) (words : List String) :
    Except Stop Invocation := do
  let x ← scan name.grammar { } none words
  match x.task? name with
  | some task => return ⟨task, verbose || x.flags.contains .verbose⟩
  | none => throw .misuse

/-- What is asked of the command `help`: an overview, or to explain one command. -/
def parseHelp : List String → Stop
  | [] => .help
  | [name] => if name == "help" || (TaskName.ofName? name).isSome then .help else .misuse
  | _ => .misuse

/-- Reads a command line from the words after what was found in front of the command. -/
def parseFrom : Found → List String → Except Stop Invocation
  | _, [] => .error .misuse
  | x, w :: r =>
    match Word.ofString w with
    | .plain name =>
      match TaskName.ofName? name with
      | some task => parseTask task (x.flags.contains .verbose) r
      | none => .error (if name == "help" then parseHelp r else .misuse)
    | .mark => .error .misuse
    | word =>
      match scanWord rootGrammar x word with
      | .ok (x, _) => parseFrom x r
      | .error s => .error s

/-- Reads a command line. -/
def parse (words : List String) : Except Stop Invocation := parseFrom { } words

end ComputeKernel.CommandLine
