import ComputeKernel.Access
import ComputeKernel.ParamType
import ComputeKernel.Text.Quoted

/-!
# Binding layouts

A kernel has one slot for each of its parameters, in binding group 0, and one for each of its
uniforms, in binding group 1. A uniform is a vector of four scalars. The layout of a kernel is its
slots and the size of its workgroups.
-/

namespace ComputeKernel

/-- Three counts of 32 bits, one for each axis. -/
structure Extent where
  x : UInt32
  y : UInt32
  z : UInt32
  deriving DecidableEq, Repr

namespace Extent

def hasZero (e : Extent) : Bool := e.x == 0 || e.y == 0 || e.z == 0

/-- The product of the counts. -/
def count (e : Extent) : Nat := e.x.toNat * e.y.toNat * e.z.toNat

/-- The counts in brackets. -/
def text (e : Extent) : String :=
  "[" ++ toString e.x.toNat ++ ", " ++ toString e.y.toNat ++ ", " ++ toString e.z.toNat ++ "]"

end Extent

/-- The binding group of the parameters. -/
def paramGroup : Nat := 0

/-- The binding group of the uniforms. -/
def uniformGroup : Nat := 1

/-- What a parameter slot binds. -/
inductive SlotKind where
  | buffer (type : ParamType)
  | texture (type : ParamType) (format : ImageFormat) (access : Access)
  deriving DecidableEq, Repr

namespace SlotKind

def type : SlotKind → ParamType
  | buffer t => t
  | texture t _ _ => t

def isTexture : SlotKind → Bool
  | buffer _ => false
  | texture .. => true

/-- A dump of the kind, as it stands in a log line. -/
def dump : SlotKind → String
  | buffer t => "Buffer(" ++ t.dump ++ ")"
  | texture t f a =>
    "Texture \x7b ty: " ++ t.dump ++ ", format: " ++ f.deviceName ++ ", access: " ++
      a.deviceName ++ " \x7d"

end SlotKind

/-- The slot of a parameter. -/
structure ParamSlot where
  name : String
  index : Nat
  kind : SlotKind
  deriving DecidableEq, Repr

/-- The slot of a uniform, a vector of four scalars. -/
structure UniformSlot where
  name : String
  kind : Scalar
  index : Nat
  deriving DecidableEq, Repr

namespace UniformSlot

/-- The vector type in WGSL. -/
def wgslType (s : UniformSlot) : String := "vec4<" ++ s.kind.name ++ ">"

/-- The vector type in GLSL. -/
def glslType (s : UniformSlot) : String :=
  match s.kind with
  | .u32 => "uvec4"
  | .i32 => "ivec4"
  | .f32 => "vec4"
  | .f64 => "dvec4"

def byteSize (s : UniformSlot) : Nat := 4 * s.kind.byteSize

end UniformSlot

/-- The slots of a kernel and the size of its workgroups. -/
structure Layout where
  params : List ParamSlot
  uniforms : List UniformSlot
  workgroupSize : Extent
  deriving DecidableEq, Repr

namespace Layout

/-- The first parameter slot of a name. -/
def param? (l : Layout) (name : String) : Option ParamSlot := l.params.find? (·.name == name)

/-- The first uniform slot of a name. -/
def uniform? (l : Layout) (name : String) : Option UniformSlot :=
  l.uniforms.find? (·.name == name)

/-- A dump of the layout. -/
def dump (l : Layout) : String :=
  let param := fun (s : ParamSlot) =>
    "ParamSlot \x7b name: " ++ Text.quoted s.name ++ ", index: " ++ toString s.index ++
      ", kind: " ++ s.kind.dump ++ " \x7d"
  let uniform := fun (s : UniformSlot) =>
    "UniformSlot \x7b name: " ++ Text.quoted s.name ++ ", kind: " ++ s.kind.dumpName ++
      ", index: " ++ toString s.index ++ " \x7d"
  "KernelLayout \x7b params: [" ++ ", ".intercalate (l.params.map param) ++ "], uniforms: [" ++
    ", ".intercalate (l.uniforms.map uniform) ++ "], workgroup_size: " ++ l.workgroupSize.text ++
    " \x7d"

end Layout

end ComputeKernel
