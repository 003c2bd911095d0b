import ComputeKernel.CommandLine.Execute

/-!
# The program

Reads files, writes what a command line leaves behind, and ends with its exit code. There is no
adapter here, and the front end takes every text for a shader of which it knows nothing.
-/

namespace ComputeKernel.CommandLine

/-- Why the operating system refuses a file. -/
def fileError : IO.Error → FileError
  | .noFileOrDirectory .. => .missing
  | .inappropriateType _ 20 _ => .notDirectory
  | .inappropriateType _ 21 _ => .isDirectory
  | .invalidArgument _ 36 _ => .nameTooLong
  | .permissionDenied _ code reason | .inappropriateType _ code reason
  | .invalidArgument _ code reason => .other (reason ++ " (os error " ++ toString code ++ ")")
  | e => .other (toString e)

/-- The host that the operating system is. -/
def systemHost : Host IO where
  readFile path := do
    match ← (IO.FS.readBinFile path).toBaseIO with
    | .ok bytes => return .ok bytes.toList
    | .error e => return .error (fileError e)
  writeFile path text := do
    match ← (IO.FS.writeFile path text).toBaseIO with
    | .ok _ => return .ok ()
    | .error e => return .error (fileError e)
  adapter := none
  frontEnd := fun _ _ => .ok ⟨[], []⟩

end ComputeKernel.CommandLine

open ComputeKernel.CommandLine in
def main (args : List String) : IO UInt32 := do
  let outcome ← execute systemHost args
  for line in outcome.log do
    IO.eprintln line.text
  IO.print outcome.output
  if let some f := outcome.failure then IO.eprint (errorText f)
  return UInt32.ofNat outcome.code
