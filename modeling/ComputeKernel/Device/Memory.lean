import ComputeKernel.Bytes
import ComputeKernel.Device.Resource

/-!
# Memory of resources

The memory of a resource is zero until something is written to it, and everything is written from
its start. So a buffer is kept as the bytes at its front that were ever written, and a texture as
such bytes for each of its rows; zeros follow them (`filled`).
-/

namespace ComputeKernel.Device

/-- Bytes followed by zeros up to a length. -/
def filled (length : Nat) (head : List UInt8) : List UInt8 :=
  head ++ List.replicate (length - head.length) 0

/-- Bytes written over the front of others. -/
def overwrite (bytes old : List UInt8) : List UInt8 := bytes ++ old.drop bytes.length

/-- Rows written over the fronts of others. -/
def overwriteRows : (rows old : List (List UInt8)) → List (List UInt8)
  | [], old => old
  | r :: rows, [] => r :: overwriteRows rows []
  | r :: rows, o :: old => overwrite r o :: overwriteRows rows old

/-- The memory of a buffer. -/
structure BufferMemory where
  size : Nat
  head : List UInt8 := []
  deriving DecidableEq, Repr

namespace BufferMemory

/-- All the bytes of the buffer. -/
def contents (m : BufferMemory) : List UInt8 := filled m.size m.head

/-- The memory after a write to its start. -/
def write (m : BufferMemory) (bytes : List UInt8) : BufferMemory :=
  { m with head := overwrite bytes m.head }

end BufferMemory

/-- The memory of a texture, row by row from the top. -/
structure TextureMemory where
  width : UInt32
  height : UInt32
  format : ImageFormat
  heads : List (List UInt8) := []
  deriving DecidableEq, Repr

namespace TextureMemory

/-- The length of a row in bytes. -/
def rowLength (m : TextureMemory) : Nat := m.width.toNat * m.format.texelBytes

/-- All the bytes of each row. -/
def rows (m : TextureMemory) : List (List UInt8) :=
  (m.heads ++ List.replicate (m.height.toNat - m.heads.length) []).map (filled m.rowLength)

/-- The memory after rows of `rowBytes` bytes are written to the top left corner. -/
def write (m : TextureMemory) (rowBytes : Nat) (bytes : List UInt8) : TextureMemory :=
  { m with heads := overwriteRows (Bytes.pieces rowBytes bytes) m.heads }

/-- The rows one after the other, each filled up to `pitch` bytes. -/
def packed (m : TextureMemory) (pitch : Nat) : List UInt8 := m.rows.flatMap (filled pitch)

end TextureMemory

end ComputeKernel.Device
