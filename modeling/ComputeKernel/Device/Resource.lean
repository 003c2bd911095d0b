import ComputeKernel.Layout

/-!
# Resources

A resource is a buffer or a texture on the device. Its number tells it from every other resource
of its sort, for as long as the device exists; the rest of a handle says how large it is.
-/

namespace ComputeKernel.Device

/-- A buffer on the device, whose size is in bytes. -/
structure Buffer where
  number : Nat
  size : Nat
  deriving DecidableEq, Repr

/-- A texture on the device. -/
structure Texture where
  number : Nat
  width : UInt32
  height : UInt32
  format : ImageFormat
  deriving DecidableEq, Repr

namespace Texture

/-- Whether a region of some width and height fits into the texture. -/
def fits (t : Texture) (width height : UInt32) : Bool :=
  decide (width ≤ t.width) && decide (height ≤ t.height)

end Texture

/-- The sort of a resource with its number. -/
inductive ResourceId where
  | buffer (number : Nat)
  | texture (number : Nat)
  deriving DecidableEq, Repr

/-- The name of a resource in the device's log. -/
def ResourceId.text : ResourceId → String
  | buffer n => "b" ++ toString n
  | texture n => "t" ++ toString n

inductive Resource where
  | buffer (b : Buffer)
  | texture (t : Texture)
  deriving DecidableEq, Repr

namespace Resource

def id : Resource → ResourceId
  | buffer b => .buffer b.number
  | texture t => .texture t.number

def shape : Resource → Shape
  | buffer _ => .buffer
  | texture _ => .image

def buffer? : Resource → Option Buffer
  | buffer b => some b
  | texture _ => none

def texture? : Resource → Option Texture
  | buffer _ => none
  | texture t => some t

end Resource

end ComputeKernel.Device
