import ComputeKernel.Failure

/-!
# Log lines

The work on a kernel leaves log lines behind, also when it fails. `Logged` is a computation that
adds lines to a log and may fail; the lines it added before it failed stay.
-/

namespace ComputeKernel

/-- How much a log line matters. -/
inductive LogLevel where
  | warn
  | info
  | debug
  deriving DecidableEq, Repr

/-- The name of a level, filled up to five characters. -/
def LogLevel.label : LogLevel → String
  | warn => "WARN "
  | info => "INFO "
  | debug => "DEBUG"

/-- Which part of the program a log line comes from. -/
inductive LogOrigin where
  | analysis
  | assembly
  | reflection
  | adapter
  | context
  | kernel
  deriving DecidableEq, Repr

/-- The name of a part of the program in the log. -/
def LogOrigin.label : LogOrigin → String
  | analysis => "webcs_gpu::analyzer"
  | assembly => "webcs_gpu::assembler"
  | reflection => "webcs_gpu::reflect"
  | adapter => "webcs_gpu::wgpu_backend::device_init"
  | context => "webcs_gpu::device"
  | kernel => "webcs_gpu::kernel"

structure LogLine where
  level : LogLevel
  origin : LogOrigin
  message : String
  deriving DecidableEq, Repr

namespace LogLine

/-- The whole line. -/
def text (l : LogLine) : String :=
  "[" ++ l.level.label ++ "] " ++ l.origin.label ++ " - " ++ l.message

end LogLine

/-- The messages of the warnings in a log, in order. -/
def warnings (log : List LogLine) : List String :=
  (log.filter (·.level == .warn)).map (·.message)

/-- A computation that adds to a log and may fail. -/
abbrev Logged := EStateM Failure (List LogLine)

namespace Logged

/-- Adds lines to the log. -/
def add (lines : List LogLine) : Logged Unit := modify (· ++ lines)

/-- Goes on with a result, or fails. -/
def ofExcept {α : Type} : Except Failure α → Logged α
  | .ok a => pure a
  | .error f => throw f

/-- Goes on with a result, or fails because of the configuration. -/
def configured {α : Type} : Except ConfigurationFault α → Logged α
  | .ok a => pure a
  | .error f => throw (.configuration f)

/-- Fails if something is wrong with the configuration. -/
def refuse : Option ConfigurationFault → Logged Unit
  | none => pure ()
  | some f => throw (.configuration f)

/-- The result of a computation that starts with an empty log, and the log. -/
def outcome {α : Type} (x : Logged α) : Except Failure α × List LogLine :=
  match x.run [] with
  | .ok a log => (.ok a, log)
  | .error f log => (.error f, log)

end Logged

end ComputeKernel
