/-!
# Bytes

A number of `width` bytes is laid out with its lowest byte first. Reading the bytes of a number
gives the number back (`toNat_ofNat`), and data is read in pieces of one width, where a last piece
that is too short is left out (`pieces`) or kept (`chunks`).
-/

namespace ComputeKernel.Bytes

/-- The lowest `width` bytes of a number, lowest first. -/
def ofNat : (width : Nat) → Nat → List UInt8
  | 0, _ => []
  | width + 1, n => UInt8.ofNat n :: ofNat width (n / 256)

/-- The number that bytes stand for, lowest first. -/
def toNat : List UInt8 → Nat
  | [] => 0
  | b :: r => b.toNat + 256 * toNat r

@[simp] theorem length_ofNat (width n : Nat) : (ofNat width n).length = width := by
  induction width generalizing n with
  | zero => rfl
  | succ width ih => simp [ofNat, ih]

theorem toNat_ofNat (width n : Nat) : toNat (ofNat width n) = n % Nat.pow 256 width := by
  induction width generalizing n with
  | zero => exact (Nat.mod_one n).symm
  | succ width ih =>
    rw [ofNat, toNat, ih, UInt8.toNat_ofNat']
    change n % 256 + _ = _
    rw [show Nat.pow 256 (width + 1) = 256 * Nat.pow 256 width from Nat.pow_succ', Nat.mod_mul]

/-- The bytes of 32 bits. -/
def ofWord (w : UInt32) : List UInt8 := ofNat 4 w.toNat

/-- The 32 bits of four bytes. -/
def word (bytes : List UInt8) : UInt32 := UInt32.ofNat (toNat bytes)

/-- The bytes of 64 bits. -/
def ofDoubleWord (w : UInt64) : List UInt8 := ofNat 8 w.toNat

/-- The 64 bits of eight bytes. -/
def doubleWord (bytes : List UInt8) : UInt64 := UInt64.ofNat (toNat bytes)

@[simp] theorem length_ofWord (w : UInt32) : (ofWord w).length = 4 := length_ofNat 4 _

@[simp] theorem length_ofDoubleWord (w : UInt64) : (ofDoubleWord w).length = 8 :=
  length_ofNat 8 _

@[simp] theorem word_ofWord (w : UInt32) : word (ofWord w) = w := by
  have hw : w.toNat < Nat.pow 256 4 := w.toNat_lt
  rw [word, ofWord, toNat_ofNat, Nat.mod_eq_of_lt hw, UInt32.ofNat_toNat]

@[simp] theorem doubleWord_ofDoubleWord (w : UInt64) : doubleWord (ofDoubleWord w) = w := by
  have hw : w.toNat < Nat.pow 256 8 := w.toNat_lt
  rw [doubleWord, ofDoubleWord, toNat_ofNat, Nat.mod_eq_of_lt hw, UInt64.ofNat_toNat]

/-- Data in pieces of `width` bytes. A last piece that is too short is left out. -/
def pieces (width : Nat) (bytes : List UInt8) : List (List UInt8) :=
  let piece := bytes.take width
  if 0 < width ∧ piece.length = width then piece :: pieces width (bytes.drop width) else []
termination_by bytes.length
decreasing_by
  rename_i h
  have := h.2
  rw [List.length_take] at this
  rw [List.length_drop]
  omega

/-- Data in pieces of `width` bytes, of which the last one may be shorter. -/
def chunks (width : Nat) (bytes : List UInt8) : List (List UInt8) :=
  let whole := pieces width bytes
  let rest := bytes.drop (whole.length * width)
  if rest.isEmpty then whole else whole ++ [rest]

section Hex

def hexDigit (n : Nat) : Char := Nat.digitChar (n % 16)

/-- Two hexadecimal digits for each byte. -/
def hex (bytes : List UInt8) : String :=
  String.ofList (bytes.flatMap fun b => [hexDigit (b.toNat / 16), hexDigit b.toNat])

/-- The value of a hexadecimal digit in either case. -/
def hexValue? (c : Char) : Option Nat :=
  if c.isDigit then some (c.toNat - '0'.toNat)
  else if 'a' ≤ c ∧ c ≤ 'f' then some (c.toNat - 'a'.toNat + 10)
  else if 'A' ≤ c ∧ c ≤ 'F' then some (c.toNat - 'A'.toNat + 10)
  else none

/-- Reads pairs of hexadecimal digits. -/
def ofHex? : List Char → Option (List UInt8)
  | [] => some []
  | [_] => none
  | a :: b :: r => do
    let high ← hexValue? a
    let low ← hexValue? b
    let bytes ← ofHex? r
    return UInt8.ofNat (16 * high + low) :: bytes

end Hex

end ComputeKernel.Bytes
