import ComputeKernel.Scalar
import ComputeKernel.Text.Blank
import ComputeKernel.Text.Cut

/-!
# Parameter types and image formats

A parameter is a linear buffer of scalars or a two-dimensional image; an image holds scalar texels
or packed texels of four bytes. A type is written as a *tag*: `float[]` is a buffer, `float[][]`
an image of plain texels and `texture` an image of packed ones. An image is stored in a *format*,
and a format alone settles the type of the parameter. Every type is read back from its own tag
(`resolve?_tag`).
-/

namespace ComputeKernel

/-- What one element of a parameter holds. -/
inductive Element where
  | scalar (kind : Scalar)
  /-- Four normalised bytes, which the kernel sees as floats. -/
  | packed
  deriving DecidableEq, Repr

/-- Whether a parameter is a linear buffer or a two-dimensional image. -/
inductive Shape where
  | buffer
  | image
  deriving DecidableEq, Repr

/-- The number of dimensions. -/
def Shape.rank : Shape → Nat
  | buffer => 1
  | image => 2

/-- The type of a kernel parameter. -/
structure ParamType where
  element : Element
  shape : Shape
  deriving DecidableEq, Repr

/-- How the texels of an image are stored. -/
inductive ImageFormat where
  | rgba8unorm
  | rgba32float
  | rgba32uint
  | rgba32sint
  | r32float
  | r32uint
  | r32sint
  deriving DecidableEq, Repr

namespace ParamType

/-- A buffer of scalars. -/
def buffer (kind : Scalar) : ParamType := ⟨.scalar kind, .buffer⟩

/-- An image whose texel channels are scalars. -/
def image (kind : Scalar) : ParamType := ⟨.scalar kind, .image⟩

/-- An image of packed texels. -/
def texture : ParamType := ⟨.packed, .image⟩

instance : Inhabited ParamType := ⟨buffer .f32⟩

def isImage (t : ParamType) : Bool := t.shape == .image

/-- The scalar the kernel sees in an element or a texel channel. -/
def scalar (t : ParamType) : Scalar :=
  match t.element with
  | .scalar kind => kind
  | .packed => .f32

/-- The size of a buffer element in bytes. -/
def elementBytes (t : ParamType) : Nat :=
  match t.element with
  | .scalar kind => kind.byteSize
  | .packed => 4

/-- The one spelling in which a type is written. -/
def tag (t : ParamType) : String :=
  match t.element, t.shape with
  | .packed, _ => "texture"
  | .scalar kind, .buffer => kind.keyword ++ "[]"
  | .scalar kind, .image => kind.keyword ++ "[][]"

/-- The format an image is stored in when none is asked for. There is none for doubles. -/
def defaultFormat? (t : ParamType) : Option ImageFormat :=
  match t.shape, t.element with
  | .buffer, _ => none
  | .image, .packed => some .rgba8unorm
  | .image, .scalar .f32 => some .rgba32float
  | .image, .scalar .u32 => some .rgba32uint
  | .image, .scalar .i32 => some .rgba32sint
  | .image, .scalar .f64 => none

/-- A dump of the type, as it stands in a log line. -/
def dump (t : ParamType) : String :=
  let element := match t.element with
    | .scalar kind => "Scalar(" ++ kind.dumpName ++ ")"
    | .packed => "PackedUnorm8x4"
  let shape := match t.shape with
    | .buffer => "Buffer"
    | .image => "Image"
  "ParamType \x7b element: " ++ element ++ ", dims: " ++ shape ++ " \x7d"

end ParamType

namespace ImageFormat

/-- A text in lower case, with case known for ASCII letters only. -/
def lowerCase (cs : List Char) : List Char := cs.map Char.toLower

/-- Reads the name of a format in either dialect's spelling, in any case and between blanks. -/
def ofName? (name : String) : Option ImageFormat :=
  match String.ofList (lowerCase (Text.trim name.toList)) with
  | "rgba8" | "rgba8unorm" => some rgba8unorm
  | "rgba32f" | "rgba32float" => some rgba32float
  | "rgba32ui" | "rgba32uint" => some rgba32uint
  | "rgba32i" | "rgba32sint" => some rgba32sint
  | "r32f" | "r32float" => some r32float
  | "r32ui" | "r32uint" => some r32uint
  | "r32i" | "r32sint" => some r32sint
  | _ => none

/-- The name of the format in WGSL. -/
def wgsl : ImageFormat → String
  | rgba8unorm => "rgba8unorm"
  | rgba32float => "rgba32float"
  | rgba32uint => "rgba32uint"
  | rgba32sint => "rgba32sint"
  | r32float => "r32float"
  | r32uint => "r32uint"
  | r32sint => "r32sint"

/-- The layout qualifier of the format in GLSL. -/
def glsl : ImageFormat → String
  | rgba8unorm => "rgba8"
  | rgba32float => "rgba32f"
  | rgba32uint => "rgba32ui"
  | rgba32sint => "rgba32i"
  | r32float => "r32f"
  | r32uint => "r32ui"
  | r32sint => "r32i"

/-- The name of the format in messages and in the device's log. -/
def deviceName : ImageFormat → String
  | rgba8unorm => "Rgba8Unorm"
  | rgba32float => "Rgba32Float"
  | rgba32uint => "Rgba32Uint"
  | rgba32sint => "Rgba32Sint"
  | r32float => "R32Float"
  | r32uint => "R32Uint"
  | r32sint => "R32Sint"

/-- The scalar a shader sees when it loads a texel. -/
def sample : ImageFormat → Scalar
  | rgba8unorm | rgba32float | r32float => .f32
  | rgba32uint | r32uint => .u32
  | rgba32sint | r32sint => .i32

/-- The type of a parameter stored in the format. -/
def paramType : ImageFormat → ParamType
  | rgba8unorm => .texture
  | f => .image f.sample

def channels : ImageFormat → Nat
  | r32float | r32uint | r32sint => 1
  | _ => 4

/-- The size of a texel in bytes. -/
def texelBytes : ImageFormat → Nat
  | rgba8unorm | r32float | r32uint | r32sint => 4
  | rgba32float | rgba32uint | rgba32sint => 16

/-- The host scalar in which texels are read back. -/
def readback : ImageFormat → HostScalar
  | rgba8unorm => .u8
  | rgba32float | r32float => .f32
  | rgba32uint | r32uint => .u32
  | rgba32sint | r32sint => .i32

end ImageFormat

namespace ParamType

/-- What stands before `ending` in a text that ends with it. -/
def before? (ending cs : List Char) : Option (List Char) :=
  (Text.after? ending.reverse cs.reverse).map List.reverse

/-- Reads a type tag, which may also name a format. -/
def resolve? (tag : List Char) : Option (ParamType × Option ImageFormat) :=
  match String.ofList tag with
  | "buffer" => some (buffer .f32, none)
  | "texture" | "[][]" => some (texture, none)
  | _ =>
    match before? "[][]".toList tag with
    | some head =>
      match Scalar.ofKeyword? (String.ofList head) with
      | some kind => some (image kind, none)
      | none => (ImageFormat.ofName? (String.ofList head)).map fun f => (f.paramType, some f)
    | none =>
      match before? "[]".toList tag with
      | some head => (Scalar.ofKeyword? (String.ofList head)).map fun kind => (buffer kind, none)
      | none => none

/-- The types that have a tag of their own, in the order in which they are listed. -/
def canonical : List ParamType :=
  [buffer .u32, buffer .i32, buffer .f32, buffer .f64, image .u32, image .i32, image .f32,
    image .f64, texture]

/-- Every type that has a tag of its own is read back from it. -/
theorem resolve?_tag : ∀ t ∈ canonical, resolve? t.tag.toList = some (t, none) := by
  decide +kernel

end ParamType

end ComputeKernel
