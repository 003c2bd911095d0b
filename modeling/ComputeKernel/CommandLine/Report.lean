import ComputeKernel.Device.Adapter
import ComputeKernel.Json.Writer
import ComputeKernel.Shader.Program

/-!
# Reports

What the program prints about a shader or an adapter. A layout is printed line by line, with the
names filled up to twelve characters, or as JSON with the members of each object in the order of
their names.
-/

namespace ComputeKernel.CommandLine

open Shader

/-- The version of the program. -/
def version : String := "0.1.0"

def versionText : String := "webcs " ++ version ++ "\n"

/-- Lines of text, each with its end. -/
def unlines (lines : List String) : String := String.join (lines.map (· ++ "\n"))

/-- A text filled up with blanks to a number of characters. -/
def padded (width : Nat) (s : String) : String :=
  s ++ String.ofList (List.replicate (width - s.length) ' ')

section Lines

def bindingLine (index : Nat) (name what : String) : String :=
  "    @binding(" ++ toString index ++ ") " ++ padded 12 name ++ " " ++ what

def paramLine (s : ParamSlot) : String :=
  bindingLine s.index s.name <|
    match s.kind with
    | .buffer type => type.tag ++ " buffer"
    | .texture _ format access => format.wgsl ++ " texture, " ++ access.name

def uniformSlotLine (s : UniformSlot) : String := bindingLine s.index s.name s.wgslType

/-- The layout of a program in lines. -/
def layoutText (p : Program) : String :=
  let l := p.layout
  let uniforms := if l.uniforms.isEmpty then []
    else "  group 1 (uniforms):" :: l.uniforms.map uniformSlotLine
  unlines (["✓ " ++ p.dialect.name ++ " program is valid",
    "  workgroup size: " ++ l.workgroupSize.text, "  group 0 (parameters):"] ++
    l.params.map paramLine ++ uniforms)

end Lines

section Documents

def paramJson (s : ParamSlot) : Json :=
  let (kind, format, access) := match s.kind with
    | .buffer _ => ("buffer", Json.null, Access.readWrite)
    | .texture _ format access => ("texture", .ofString format.wgsl, access)
  .ofMembers [("access", .ofString access.name), ("binding", .ofNat s.index),
    ("format", format), ("kind", .ofString kind), ("name", .ofString s.name),
    ("type", .ofString s.kind.type.tag)]

def uniformJson (s : UniformSlot) : Json :=
  .ofMembers [("binding", .ofNat s.index), ("name", .ofString s.name),
    ("type", .ofString s.wgslType)]

/-- The layout of a program as JSON. -/
def layoutJson (p : Program) : Json :=
  let l := p.layout
  let size := [l.workgroupSize.x, l.workgroupSize.y, l.workgroupSize.z]
  .ofMembers [("params", .array (l.params.map paramJson)), ("target", .ofString p.dialect.name),
    ("uniforms", .array (l.uniforms.map uniformJson)),
    ("workgroup_size", .array (size.map fun n => .ofNat n.toNat))]

end Documents

/-- The layout of a program in one of the two forms. -/
def layoutReport (json : Bool) (p : Program) : String :=
  if json then unlines [String.ofList (layoutJson p).pretty] else layoutText p

/-- What is known about an adapter and the device that it gave. -/
def adapterReport (a : Device.Adapter) (target : Device.RenderTarget) (d : Device) : String :=
  unlines ["webcs v" ++ version, "  adapter:  " ++ a.name, "  backend:  " ++ a.backend,
    "  device:   " ++ a.deviceType, "  driver:   " ++ a.driver ++ " " ++ a.driverInfo,
    "  f64:      " ++ (if d.hasDoubles then "yes" else "no"),
    "  render target: " ++ crossed target.width target.height]

/-- An overview of the commands. -/
def helpText : String :=
  unlines ["Compile WebCS pseudo-kernels to WGSL or GLSL compute shaders", "",
    "Usage: webcs [OPTIONS] <COMMAND>", "", "Commands:",
    "  compile       Assemble a kernel body and print the generated shader",
    "  check         Assemble and validate a kernel body, printing its binding layout",
    "  check-shader  Validate a complete shader and print the layout recovered from it",
    "  info          Show the GPU adapter the runtime would use",
    "  help          Print this message or the help of the given subcommand(s)", "", "Options:",
    "  -v, --verbose  Enable debug logging", "  -h, --help     Print help",
    "  -V, --version  Print version"]

end ComputeKernel.CommandLine
