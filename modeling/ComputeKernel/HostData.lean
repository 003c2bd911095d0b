import ComputeKernel.Binary
import ComputeKernel.Bytes
import ComputeKernel.Scalar

/-!
# Data of the host

Numbers of one scalar, which are handed to the device or read back from it as bytes. Reading the
bytes of some data as its own scalar gives the data back.
-/

namespace ComputeKernel

inductive HostData where
  | u8 (values : List UInt8)
  | u32 (values : List UInt32)
  | i32 (values : List Int32)
  | f32 (values : List Binary32)
  | f64 (values : List Binary64)
  deriving DecidableEq, Repr

namespace HostData

def scalar : HostData → HostScalar
  | u8 _ => .u8
  | u32 _ => .u32
  | i32 _ => .i32
  | f32 _ => .f32
  | f64 _ => .f64

/-- The number of values. -/
def length : HostData → Nat
  | u8 vs => vs.length
  | u32 vs => vs.length
  | i32 vs => vs.length
  | f32 vs => vs.length
  | f64 vs => vs.length

/-- The bytes of the values, one value after the other. -/
def toBytes : HostData → List UInt8
  | u8 vs => vs
  | u32 vs => vs.flatMap Bytes.ofWord
  | i32 vs => vs.flatMap fun v => Bytes.ofWord v.toUInt32
  | f32 vs => vs.flatMap fun v => Bytes.ofWord v.bits
  | f64 vs => vs.flatMap fun v => Bytes.ofDoubleWord v.bits

/-- The values that bytes hold. A last value that is incomplete is left out. -/
def ofBytes (s : HostScalar) (bytes : List UInt8) : HostData :=
  match s with
  | .u8 => u8 bytes
  | .u32 => u32 ((Bytes.pieces 4 bytes).map Bytes.word)
  | .i32 => i32 ((Bytes.pieces 4 bytes).map fun p => (Bytes.word p).toInt32)
  | .f32 => f32 ((Bytes.pieces 4 bytes).map fun p => ⟨Bytes.word p⟩)
  | .f64 => f64 ((Bytes.pieces 8 bytes).map fun p => ⟨Bytes.doubleWord p⟩)

/-- Puts bytes in the place of all values. Where the old values are as many bytes long as the
whole values among the new ones, those are overwritten. -/
def refill (old : HostData) (bytes : List UInt8) : HostData :=
  let whole := bytes.take (bytes.length - bytes.length % old.scalar.byteSize)
  if old.toBytes.length = whole.length then
    ofBytes old.scalar (whole ++ old.toBytes.drop whole.length)
  else ofBytes old.scalar whole

end HostData

end ComputeKernel
