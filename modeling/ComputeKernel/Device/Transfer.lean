import ComputeKernel.Count
import ComputeKernel.Device.Basic

/-!
# Allocation and transfer

Buffers and textures are allocated within the limits of the device, written from the host and read
back through a staging buffer. The size of a buffer is a multiple of four bytes and never zero, and
what is written to it is filled up with zeros in the same way. Rows of a texture are read back at a
distance that is a multiple of 256 bytes; what stands between them is dropped again. The bytes of
rows and regions are counted in 32 bits, and a texture that has more of them stops the program.
-/

namespace ComputeKernel.Device

section Buffers

/-- The size of a buffer that has room for `n` bytes, counted in 64 bits. -/
def alignedSize (n : Nat) : Nat := min (UInt64.size - 1) ((max n 4 + 3) / 4 * 4)

/-- Bytes filled up with zeros to the size of a buffer for them. -/
def aligned (bytes : List UInt8) : List UInt8 := filled (alignedSize bytes.length) bytes

/-- Fails if a buffer would be too large. -/
def checkSize (size : Nat) : Work Unit := do
  let limit := (← get).limits.bufferSize
  if limit < size then throw (.backend (.bufferLimit size limit))

/-- Makes a buffer of zeros with room for `n` bytes. -/
def allocateBuffer (n : Nat) : Work Buffer := do
  let size := alignedSize n
  checkSize size
  let number ← Work.checked .allocateBuffer (·.createBuffer size "webcs_buffer")
  return ⟨number, size⟩

/-- Makes a buffer that holds some bytes. -/
def bufferOfBytes (bytes : List UInt8) : Work Buffer := do
  let bytes := aligned bytes
  checkSize bytes.length
  let number ← Work.checked .allocateBuffer (·.createBufferInit bytes "webcs_buffer")
  return ⟨number, bytes.length⟩

/-- Writes bytes to the start of a buffer. -/
def uploadBuffer (b : Buffer) (bytes : List UInt8) : Work Unit := do
  if b.size < bytes.length then throw (.usage (.uploadTooLong bytes.length b.size))
  if !bytes.isEmpty then
    Work.checked .uploadBuffer fun d => ((), d.writeBuffer b.number (aligned bytes))

/-- Reads a whole buffer. -/
def readBuffer (b : Buffer) : Work (List UInt8) := do
  let staging ← Work.unchecked (·.createBuffer b.size "webcs_staging")
  modify (·.submitBufferCopy b.number staging b.size)
  Work.mapped staging

end Buffers

section Textures

/-- The bytes of a row of texels. -/
def rowBytes (width : UInt32) (format : ImageFormat) : Nat := width.toNat * format.texelBytes

/-- The distance at which rows of some bytes are read back. -/
def pitch (row : Nat) : Nat := (row + 255) / 256 * 256

/-- Makes a texture of zeros. -/
def allocateTexture (width height : UInt32) (format : ImageFormat) : Work Texture := do
  if width == 0 || height == 0 then throw (.usage (.emptyTexture width height))
  let limit := (← get).limits.textureExtent
  if limit < width || limit < height then throw (.backend (.textureLimit width height limit))
  let number ← Work.checked .allocateTexture (·.createTexture width height format)
  return ⟨number, width, height, format⟩

/-- Writes texels to the top left corner of a texture, as a region of some width and height. -/
def uploadTexture (t : Texture) (texels : List UInt8) (width height : UInt32) : Work Unit := do
  if !t.fits width height then
    throw (.usage (.uploadTooWide width height t.width t.height))
  let row ← orFail (counted .row (rowBytes width t.format))
  let expected ← orFail (counted .region (row * height.toNat))
  if texels.length ≠ expected then throw (.usage (.texelLength expected texels.length))
  Work.checked .uploadTexture fun d => ((), d.writeTexture t.number width height row texels)

/-- Drops what stands between rows of `row` bytes that are `pitch` bytes apart. -/
def withoutPadding (row pitch : Nat) (bytes : List UInt8) : List UInt8 :=
  if row = pitch then bytes else (Bytes.chunks pitch bytes).flatMap (·.take row)

/-- Reads all the texels of a texture, row by row. -/
def readTexture (t : Texture) : Work (List UInt8) := do
  let row ← orFail (counted .row (rowBytes t.width t.format))
  let pitch ← orFail (counted .pitch (pitch row))
  let staging ← Work.unchecked (·.createBuffer (pitch * t.height.toNat) "webcs_texture_staging")
  modify (·.submitTextureCopy t.number staging t.width t.height pitch)
  return withoutPadding row pitch (← Work.mapped staging)

end Textures

/-- Reads all of a resource. -/
def readResource : Resource → Work (List UInt8)
  | .buffer b => readBuffer b
  | .texture t => readTexture t

end ComputeKernel.Device
