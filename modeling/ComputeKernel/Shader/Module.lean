import ComputeKernel.Access
import ComputeKernel.Failure
import ComputeKernel.Layout

/-!
# What a front end says about a shader

A front end reads the text of a shader and describes it: the global variables with their address
spaces, bindings and types, and the entry points. Types that no slot can have occur as well.
-/

namespace ComputeKernel.Shader

/-- The scalars of a shading language. -/
inductive ScalarType where
  | u32
  | i32
  | f32
  | f64
  | u64
  | i64
  | bool
  deriving DecidableEq, Repr

/-- The scalar of a slot, if a slot may have it. -/
def ScalarType.slot? : ScalarType → Option Scalar
  | u32 => some .u32
  | i32 => some .i32
  | f32 => some .f32
  | f64 => some .f64
  | u64 | i64 | bool => none

/-- Whether a variable may be loaded from and stored to. -/
structure StorageAccess where
  load : Bool
  store : Bool
  deriving DecidableEq, Repr

/-- The access mode. A variable that is not stored to is only read. -/
def StorageAccess.mode (a : StorageAccess) : Access :=
  match a.load, a.store with
  | true, true => .readWrite
  | false, true => .write
  | _, false => .read

inductive ImageDim where
  | d1
  | d2
  | d3
  | cube
  deriving DecidableEq, Repr

/-- What an image is for. -/
inductive ImageClass where
  | sampled (kind : ScalarType) (multisampled : Bool)
  | depth
  /-- A storage image; there is no format where it is one that no slot can have. -/
  | storage (format : Option ImageFormat) (access : StorageAccess)
  deriving DecidableEq, Repr

/-- The type of a global variable. -/
inductive VarType where
  | scalar (kind : ScalarType)
  | atomic (kind : ScalarType)
  | vector (size : Nat) (kind : ScalarType)
  | array (element : VarType) (length : Option Nat)
  | struct (members : List (Option String × VarType))
  | sampler
  | image (dim : ImageDim) (arrayed : Bool) (cls : ImageClass)
  deriving Repr, Inhabited

/-- The address space of a global variable. -/
inductive AddressSpace where
  | storage (access : StorageAccess)
  | uniform
  | handle
  /-- Memory of one invocation. -/
  | invocation
  | workgroup
  deriving DecidableEq, Repr

/-- Where a variable is bound. -/
structure BindingPlace where
  group : Nat
  binding : Nat
  deriving DecidableEq, Repr

/-- A global variable. -/
structure GlobalVar where
  name : Option String
  space : AddressSpace
  place : Option BindingPlace
  type : VarType
  deriving Repr

inductive Stage where
  | compute
  | vertex
  | fragment
  deriving DecidableEq, Repr

structure EntryPoint where
  name : String
  stage : Stage
  workgroupSize : Extent
  deriving DecidableEq, Repr

/-- What a front end says about a shader, in the order of its text. -/
structure ShaderModule where
  vars : List GlobalVar
  entryPoints : List EntryPoint
  deriving Repr, Inhabited

/-- A front end reads a shader text of a dialect, or turns it down. -/
abbrev FrontEnd := Dialect → String → Except CompileFault ShaderModule

end ComputeKernel.Shader
