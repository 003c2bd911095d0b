/-!
# Dialects

A kernel is emitted in one of two shading languages. Here are their names, the names that a kernel
parameter may not take in them, and the names that every emitted shader declares itself.
-/

namespace ComputeKernel

/-- A shading language. -/
inductive Dialect where
  | wgsl
  | glsl
  deriving DecidableEq, Repr

namespace Dialect

instance : Inhabited Dialect := ⟨wgsl⟩

def name : Dialect → String
  | wgsl => "wgsl"
  | glsl => "glsl"

/-- The dialect of exactly this name. -/
def ofName? : String → Option Dialect
  | "wgsl" => some wgsl
  | "glsl" => some glsl
  | _ => none

/-- The dialect that a word asks for, in any case. -/
def ofWord? (word : String) : Option Dialect :=
  match String.ofList (word.toList.map Char.toLower) with
  | "wgsl" => some wgsl
  | "glsl" | "glsl450" => some glsl
  | _ => none

/-- The name of the language in messages. -/
def title : Dialect → String
  | wgsl => "WGSL"
  | glsl => "GLSL"

/-- The function that stores a texel. -/
def storeFunction : Dialect → String
  | wgsl => "textureStore"
  | glsl => "imageStore"

/-- The variables through which a kernel body sees its invocation. -/
def builtinNames : List String :=
  ["thread", "g_global_invocation_id", "g_local_invocation_id", "g_local_invocation_index",
    "g_workgroup_id", "g_num_workgroups"]

/-- The function that holds the kernel body. -/
def bodyFunction : String := "csmain"

/-- The function that the device calls. -/
def entryPoint : String := "main"

/-- The words of WGSL. -/
def wgslWords : List String :=
  ["alias", "array", "atomic", "bitcast", "bool", "break", "case", "const", "const_assert",
    "continue", "continuing", "default", "diagnostic", "discard", "else", "enable", "f16", "f32",
    "f64", "false", "fn", "for", "function", "if", "i32", "let", "loop", "mat2x2", "mat3x3",
    "mat4x4", "override", "private", "ptr", "requires", "return", "sampler", "storage", "struct",
    "switch", "texture_2d", "true", "u32", "uniform", "var", "vec2", "vec3", "vec4", "while",
    "workgroup", "this", "self", "shared", "filter", "target", "type", "set", "common", "layout",
    "module", "static", "enum", "mod", "use", "where", "new", "null", "handle"]

/-- The words of GLSL. -/
def glslWords : List String :=
  ["attribute", "const", "uniform", "buffer", "shared", "coherent", "volatile", "restrict",
    "readonly", "writeonly", "layout", "centroid", "flat", "smooth", "break", "continue", "do",
    "for", "while", "switch", "case", "default", "if", "else", "in", "out", "inout", "float",
    "double", "int", "uint", "void", "bool", "true", "false", "discard", "return", "struct",
    "vec2", "vec3", "vec4", "ivec2", "ivec3", "ivec4", "uvec2", "uvec3", "uvec4", "dvec2",
    "dvec3", "dvec4", "bvec2", "bvec3", "bvec4", "mat2", "mat3", "mat4", "image2D", "iimage2D",
    "uimage2D", "sampler2D", "texture2D", "precision", "highp", "mediump", "lowp", "invariant",
    "precise", "subroutine", "patch", "sample"]

/-- Whether a parameter may not take a name. GLSL keeps every name in `gl_` for itself. -/
def isReserved (d : Dialect) (name : String) : Bool :=
  builtinNames.contains name || name == bodyFunction || name == entryPoint ||
    match d with
    | wgsl => wgslWords.contains name
    | glsl => glslWords.contains name || "gl_".toList.isPrefixOf name.toList

@[simp] theorem ofName?_name (d : Dialect) : ofName? d.name = some d := by
  cases d <;> rfl

end Dialect

end ComputeKernel
