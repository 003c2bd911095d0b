import ComputeKernel.Body.Use
import ComputeKernel.Dialect.Phrase
import ComputeKernel.Layout

/-!
# Emitting a shader

The text of a shader: the declarations of its bindings, the variables through which the body sees
its invocation, the parts of the body, and the entry point, which fills these variables and calls
the body.
-/

namespace ComputeKernel.Dialect

/-- What a shader starts with. -/
def opening : Dialect → Extent → String
  | wgsl, _ => ""
  | glsl, size =>
    "#version 450\nlayout(local_size_x = " ++ toString size.x.toNat ++ ", local_size_y = " ++
      toString size.y.toNat ++ ", local_size_z = " ++ toString size.z.toNat ++ ") in;\n"

/-- The place of a binding in WGSL. -/
def wgslPlace (group index : Nat) : String :=
  "@group(" ++ toString group ++ ") @binding(" ++ toString index ++ ") "

/-- The place of a binding in GLSL, with one more layout qualifier. -/
def glslPlace (group index : Nat) (qualifier : String) : String :=
  "layout(set = " ++ toString group ++ ", binding = " ++ toString index ++ ", " ++ qualifier ++
    ") "

/-- The image type of GLSL for texels of a scalar. -/
def glslImage : Scalar → String
  | .u32 => "uimage2D"
  | .i32 => "iimage2D"
  | .f32 | .f64 => "image2D"

/-- The memory qualifier of GLSL for an access mode. -/
def glslMemory : Access → String
  | .read => "readonly "
  | .write => "writeonly "
  | .readWrite => ""

/-- The declaration of a parameter. An image that is only read is a sampled texture in WGSL. -/
def paramBinding (d : Dialect) (s : ParamSlot) : String :=
  match d, s.kind with
  | wgsl, .buffer type =>
    wgslPlace paramGroup s.index ++ "var<storage, read_write> " ++ s.name ++ ": array<" ++
      type.scalar.name ++ ">;"
  | wgsl, .texture _ format .read =>
    wgslPlace paramGroup s.index ++ "var " ++ s.name ++ ": texture_2d<" ++ format.sample.name ++
      ">;"
  | wgsl, .texture _ format access =>
    wgslPlace paramGroup s.index ++ "var " ++ s.name ++ ": texture_storage_2d<" ++ format.wgsl ++
      ", " ++ access.name ++ ">;"
  | glsl, .buffer type =>
    glslPlace paramGroup s.index "std430" ++ "buffer Slot_" ++ s.name ++ " \x7b " ++
      type.scalar.keyword ++ " data[]; \x7d " ++ s.name ++ ";"
  | glsl, .texture _ format access =>
    glslPlace paramGroup s.index format.glsl ++ "uniform " ++ glslMemory access ++
      glslImage format.sample ++ " " ++ s.name ++ ";"

/-- The declaration of a uniform. -/
def uniformBinding (d : Dialect) (s : UniformSlot) : String :=
  match d with
  | wgsl => wgslPlace uniformGroup s.index ++ "var<uniform> " ++ s.name ++ ": " ++ s.wgslType ++ ";"
  | glsl =>
    glslPlace uniformGroup s.index "std140" ++ "uniform Uniform_" ++ s.name ++ " \x7b " ++
      s.glslType ++ " " ++ s.name ++ "; \x7d;"

/-- The variables through which a body sees its invocation. -/
def builtinVariables : Dialect → String
  | wgsl =>
    "var<private> thread: vec3<u32>;\n" ++
      "var<private> g_global_invocation_id: vec3<u32>;\n" ++
      "var<private> g_local_invocation_id: vec3<u32>;\n" ++
      "var<private> g_local_invocation_index: u32;\n" ++
      "var<private> g_workgroup_id: vec3<u32>;\n" ++
      "var<private> g_num_workgroups: vec3<u32>;\n"
  | glsl =>
    "uvec3 thread;\n" ++
      "uvec3 g_global_invocation_id;\n" ++
      "uvec3 g_local_invocation_id;\n" ++
      "uint g_local_invocation_index;\n" ++
      "uvec3 g_workgroup_id;\n" ++
      "uvec3 g_num_workgroups;\n"

/-- The function that the device calls. -/
def entryDefinition : Dialect → Extent → String
  | wgsl, size =>
    "@compute @workgroup_size(" ++ toString size.x.toNat ++ ", " ++ toString size.y.toNat ++
      ", " ++ toString size.z.toNat ++ ")\n" ++
      "fn main(\n" ++
      "    @builtin(global_invocation_id) global_id: vec3<u32>,\n" ++
      "    @builtin(local_invocation_id) local_id: vec3<u32>,\n" ++
      "    @builtin(local_invocation_index) local_index: u32,\n" ++
      "    @builtin(workgroup_id) group_id: vec3<u32>,\n" ++
      "    @builtin(num_workgroups) group_count: vec3<u32>,\n" ++
      ") \x7b\n" ++
      "    thread = global_id;\n" ++
      "    g_global_invocation_id = global_id;\n" ++
      "    g_local_invocation_id = local_id;\n" ++
      "    g_local_invocation_index = local_index;\n" ++
      "    g_workgroup_id = group_id;\n" ++
      "    g_num_workgroups = group_count;\n" ++
      "    csmain();\n" ++
      "\x7d\n"
  | glsl, _ =>
    "void main() \x7b\n" ++
      "    thread = gl_GlobalInvocationID;\n" ++
      "    g_global_invocation_id = gl_GlobalInvocationID;\n" ++
      "    g_local_invocation_id = gl_LocalInvocationID;\n" ++
      "    g_local_invocation_index = gl_LocalInvocationIndex;\n" ++
      "    g_workgroup_id = gl_WorkGroupID;\n" ++
      "    g_num_workgroups = gl_NumWorkGroups;\n" ++
      "    csmain();\n" ++
      "\x7d\n"

/-- The text of a shader. -/
def emit (d : Dialect) (layout : Layout) (parts : Body.Parts) : String :=
  d.opening layout.workgroupSize ++
    String.join (layout.params.map fun s => d.paramBinding s ++ "\n") ++
    String.join (layout.uniforms.map fun s => d.uniformBinding s ++ "\n") ++
    "\n" ++ d.builtinVariables ++
    String.join (parts.outside.map fun p => "\n" ++ String.ofList p ++ "\n") ++
    "\n" ++ String.ofList (d.bodyDefinition parts.body) ++
    "\n" ++ d.entryDefinition layout.workgroupSize

end ComputeKernel.Dialect
