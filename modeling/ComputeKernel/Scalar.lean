/-!
# Scalars

The scalars a shader computes with, and the scalars in which data is handed to the device and read
back from it. Each has its spellings and its size in bytes.
-/

namespace ComputeKernel

/-- A scalar that a buffer element, a texel channel or a uniform holds. -/
inductive Scalar where
  | u32
  | i32
  | f32
  | f64
  deriving DecidableEq, Repr

/-- A scalar in which the host hands data over. -/
inductive HostScalar where
  | u8
  | u32
  | i32
  | f32
  | f64
  deriving DecidableEq, Repr

namespace HostScalar

/-- The scalar that a word asks for when data is read back. -/
def ofHint? : String → Option HostScalar
  | "byte" | "u8" | "uint8" => some .u8
  | "uint" | "u32" => some .u32
  | "int" | "i32" => some .i32
  | "float" | "f32" => some .f32
  | "double" | "f64" => some .f64
  | _ => none

def byteSize : HostScalar → Nat
  | u8 => 1
  | u32 | i32 | f32 => 4
  | f64 => 8

def name : HostScalar → String
  | u8 => "u8"
  | u32 => "u32"
  | i32 => "i32"
  | f32 => "f32"
  | f64 => "f64"

end HostScalar

namespace Scalar

/-- Both the tag keyword and the shader's own spelling are understood. -/
def ofKeyword? : String → Option Scalar
  | "uint" | "u32" => some u32
  | "int" | "i32" => some i32
  | "float" | "f32" => some f32
  | "double" | "f64" => some f64
  | _ => none

/-- The word that names the scalar in a type tag, which is also its name in GLSL. -/
def keyword : Scalar → String
  | u32 => "uint"
  | i32 => "int"
  | f32 => "float"
  | f64 => "double"

/-- The name of the scalar in WGSL. -/
def name : Scalar → String
  | u32 => "u32"
  | i32 => "i32"
  | f32 => "f32"
  | f64 => "f64"

/-- The name of the scalar in a dump of a layout. -/
def dumpName : Scalar → String
  | u32 => "U32"
  | i32 => "I32"
  | f32 => "F32"
  | f64 => "F64"

def byteSize : Scalar → Nat
  | u32 | i32 | f32 => 4
  | f64 => 8

/-- The host scalar that holds the same values. -/
def host : Scalar → HostScalar
  | u32 => .u32
  | i32 => .i32
  | f32 => .f32
  | f64 => .f64

@[simp] theorem ofKeyword?_keyword (s : Scalar) : ofKeyword? s.keyword = some s := by
  cases s <;> rfl

@[simp] theorem ofKeyword?_name (s : Scalar) : ofKeyword? s.name = some s := by
  cases s <;> rfl

end Scalar

end ComputeKernel
