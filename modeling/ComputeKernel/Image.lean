import ComputeKernel.Count
import ComputeKernel.HostData

/-!
# Images of the host

An image has four bytes for each pixel, row by row. To go into a texture its bytes become texels
of the texture's format, of which only those with four channels and no sign are possible.
-/

namespace ComputeKernel

/-- An image with the bytes red, green, blue and alpha of its pixels. -/
structure Image where
  width : UInt32
  height : UInt32
  pixels : List UInt8
  deriving DecidableEq, Repr

namespace Image

/-- The bytes of all pixels of an image of some width and height. -/
def pixelBytes (width height : UInt32) : Nat := width.toNat * height.toNat * 4

/-- An image that is not empty and has all its pixels. -/
def ofPixels (width height : UInt32) (pixels : List UInt8) : Except Failure Image := do
  let expected ← counted .pixels (pixelBytes width height)
  if pixels.length = expected ∧ width ≠ 0 ∧ height ≠ 0 then return ⟨width, height, pixels⟩
  else throw (.usage (.rgbaLength width height expected pixels.length))

/-- A dump of the image. -/
def dump (image : Image) : String :=
  "ImageData \x7b width: " ++ toString image.width.toNat ++ ", height: " ++
    toString image.height.toNat ++ ", pixels: [" ++
    ", ".intercalate (image.pixels.map fun p => toString p.toNat) ++ "] \x7d"

/-- Pixels as texels of a format. -/
def convert (format : ImageFormat) (pixels : List UInt8) : Except UsageFault (List UInt8) :=
  match format with
  | .rgba8unorm => .ok pixels
  | .rgba32float => .ok (HostData.f32 (pixels.map fun p => Binary32.ratio p.toNat 255)).toBytes
  | .rgba32uint => .ok (HostData.u32 (pixels.map UInt8.toUInt32)).toBytes
  | _ => .error (.noImageUpload format)

/-- The image as texels of a format. -/
def texels (image : Image) (format : ImageFormat) : Except Failure (List UInt8) := do
  let expected ← counted .pixels (pixelBytes image.width image.height)
  if image.pixels.length ≠ expected then
    throw (.usage (.imageLength image.width image.height expected image.pixels.length))
  (convert format image.pixels).mapError .usage

section Texels

variable {image : Image} {format : ImageFormat} {texels : List UInt8} {f : Failure}

theorem texels_of_le (h : UInt64.size ≤ pixelBytes image.width image.height) :
    image.texels format = .error (.overflow .pixels) := by
  rw [Image.texels, counted_of_le h]
  rfl

theorem texels_of_lt (h : pixelBytes image.width image.height < UInt64.size) :
    image.texels format =
      if image.pixels.length ≠ pixelBytes image.width image.height then
        .error (.usage (.imageLength image.width image.height (pixelBytes image.width image.height)
          image.pixels.length))
      else (convert format image.pixels).mapError .usage := by
  rw [Image.texels, counted_of_lt h]
  show (if _ then _ else _) = _
  split <;> rfl

/-- An image that has all its pixels becomes what they become. -/
theorem texels_eq_ok_iff : image.texels format = .ok texels ↔
    pixelBytes image.width image.height < UInt64.size ∧
      image.pixels.length = pixelBytes image.width image.height ∧
      convert format image.pixels = .ok texels := by
  rcases Nat.lt_or_ge (pixelBytes image.width image.height) UInt64.size with h | h
  · rw [texels_of_lt h]
    by_cases hl : image.pixels.length = pixelBytes image.width image.height
    · rw [if_neg (not_not_intro hl)]
      refine ⟨fun ht => ⟨h, hl, ?_⟩, fun ht => by rw [ht.2.2]; rfl⟩
      rcases hc : convert format image.pixels with _ | _ <;> rw [hc] at ht <;> cases ht
      rfl
    · simp [hl]
  · rw [texels_of_le h]
    simp [Nat.not_lt.2 h]

/-- Why an image has no texels. -/
theorem texels_eq_error (h : image.texels format = .error f) :
    (UInt64.size ≤ pixelBytes image.width image.height ∧ f = .overflow .pixels) ∨
      (image.pixels.length ≠ pixelBytes image.width image.height ∧
        f = .usage (.imageLength image.width image.height (pixelBytes image.width image.height)
          image.pixels.length)) ∨
      (convert format image.pixels = .error (.noImageUpload format) ∧
        f = .usage (.noImageUpload format)) := by
  rcases Nat.lt_or_ge (pixelBytes image.width image.height) UInt64.size with hlt | hle
  · rw [texels_of_lt hlt] at h
    split at h
    · rename_i hl
      cases h
      exact .inr (.inl ⟨hl, rfl⟩)
    · cases format <;> cases h <;> exact .inr (.inr ⟨rfl, rfl⟩)
  · rw [texels_of_le hle] at h
    cases h
    exact .inl ⟨hle, rfl⟩

end Texels

end Image

end ComputeKernel
