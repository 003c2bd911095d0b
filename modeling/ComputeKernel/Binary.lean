import ComputeKernel.Json.Number

/-!
# Binary floating point

Numbers of binary32 and binary64, kept as their bits. A finite number is a mantissa times a power
of two; a ratio of natural numbers is rounded to the nearest number of a format, and of two that
are equally near to the one whose last bit is zero. What does not fit becomes infinite.

For a format of precision `p` whose smallest number is `2 ^ least`, the numbers with the unit
`2 ^ q` have the bits `(q - least) * 2 ^ (p - 1) + m`, where `m` is the mantissa. That holds also
for the numbers below the smallest normal one, where `q = least`.
-/

namespace ComputeKernel

/-- A number of binary32. -/
structure Binary32 where
  bits : UInt32
  deriving DecidableEq, Repr

/-- A number of binary64. -/
structure Binary64 where
  bits : UInt64
  deriving DecidableEq, Repr

/-- The precision of a format, the exponent of its smallest number and the bits of infinity. -/
structure BinaryFormat where
  precision : Nat
  least : Int
  infinity : Nat
  deriving DecidableEq, Repr

namespace BinaryFormat

def single : BinaryFormat := ⟨24, -149, 0x7f800000⟩

def double : BinaryFormat := ⟨53, -1074, 0x7ff0000000000000⟩

/-- A quotient rounded to the nearest natural number, and half way to the even one. -/
def roundQuotient (n d : Nat) : Nat :=
  let q := n / d
  let r := n % d
  if 2 * r < d then q else if d < 2 * r then q + 1 else q + q % 2

/-- A ratio times a power of two, as a ratio. -/
def scale (n d : Nat) : Int → Nat × Nat
  | .ofNat e => (n <<< e, d)
  | .negSucc e => (n, d <<< (e + 1))

/-- The exponent of the greatest power of two that is not above a positive ratio. -/
def exponent (n d : Nat) : Int :=
  let e : Int := (n.log2 : Int) - d.log2
  let (a, b) := scale n d (-e)
  if b ≤ a then e else e - 1

/-- The bits of the number nearest to a ratio. -/
def round (f : BinaryFormat) (n d : Nat) : Nat :=
  if n = 0 then 0
  else
    let q := max f.least (exponent n d - (f.precision - 1))
    let (a, b) := scale n d (-q)
    min f.infinity (((q - f.least).toNat <<< (f.precision - 1)) + roundQuotient a b)

/-- The mantissa and the exponent of the number with some finite bits. -/
def parts (f : BinaryFormat) (bits : Nat) : Nat × Int :=
  let unit := 1 <<< (f.precision - 1)
  let e := bits / unit
  if e = 0 then (bits % unit, f.least) else (unit + bits % unit, f.least + (e - 1))

/-- The bits of the product of two finite numbers. -/
def mul (f : BinaryFormat) (a b : Nat) : Nat :=
  let (m, e) := f.parts a
  let (k, g) := f.parts b
  let (p, q) := scale (m * k) 1 (e + g)
  f.round p q

/-- The bits of the quotient of two finite numbers, of which the second is not zero. -/
def div (f : BinaryFormat) (a b : Nat) : Nat :=
  let (m, e) := f.parts a
  let (k, g) := f.parts b
  let (p, q) := scale m k (e - g)
  f.round p q

end BinaryFormat

namespace Binary64

def isNegative (x : Binary64) : Bool := x.bits >>> 63 == 1

/-- The bits without the sign. -/
def magnitude (x : Binary64) : Nat := x.bits.toNat % 0x8000000000000000

def isNaN (x : Binary64) : Bool := decide (BinaryFormat.double.infinity < x.magnitude)

def isInfinite (x : Binary64) : Bool := decide (x.magnitude = BinaryFormat.double.infinity)

/-- The number with a sign and a magnitude. -/
def ofMagnitude (negative : Bool) (magnitude : Nat) : Binary64 :=
  ⟨UInt64.ofNat (magnitude + if negative then 0x8000000000000000 else 0)⟩

def zero : Binary64 := ⟨0⟩

def infinity (negative : Bool) : Binary64 := ofMagnitude negative BinaryFormat.double.infinity

/-- The number that is none. -/
def nan : Binary64 := ⟨0x7ff8000000000000⟩

/-- The greatest power of ten within the range of a double. -/
def greatestTen : Nat := 308

/-- The magnitude of a power of ten. -/
def ten (e : Nat) : Nat := BinaryFormat.double.round (Nat.pow 10 e) 1

/-- A magnitude times a power of ten, unless that is out of range. -/
def timesTen? (magnitude e : Nat) : Option Nat :=
  if magnitude = 0 then some 0
  else if greatestTen < e then none
  else
    let product := BinaryFormat.double.mul magnitude (ten e)
    if product < BinaryFormat.double.infinity then some product else none

/-- A magnitude divided by a power of ten. A power out of range is taken in parts. -/
def overTen (magnitude e : Nat) : Nat :=
  if magnitude = 0 then 0
  else if e ≤ greatestTen then BinaryFormat.double.div magnitude (ten e)
  else overTen (BinaryFormat.double.div magnitude (ten greatestTen)) (e - greatestTen)
termination_by e
decreasing_by simp only [greatestTen] at *; omega

/-- The double that a decimal number is read as, unless it is out of range. The digits and the power
of ten are rounded each by itself, and so is their product or quotient. -/
def ofDecimal? (x : Decimal) : Option Binary64 :=
  let digits := BinaryFormat.double.round x.digits 1
  let magnitude := match x.exponent with
    | .ofNat e => timesTen? digits e
    | .negSucc e => some (overTen digits (e + 1))
  magnitude.map (ofMagnitude x.negative)

/-- The size of a finite number as a ratio. -/
def ratio (x : Binary64) : Nat × Nat :=
  let (m, e) := BinaryFormat.double.parts x.magnitude
  BinaryFormat.scale m 1 e

/-- The size of a number, without what stands behind the point and at most `bound`. -/
def truncated (x : Binary64) (bound : Nat) : Nat :=
  if x.isNaN then 0
  else if x.isInfinite then bound
  else
    let (n, d) := x.ratio
    min bound (n / d)

/-- The number as 32 bits without sign: what stands behind the point is dropped, what is out of
range goes to the nearest bound, and what is no number goes to zero. -/
def toUInt32 (x : Binary64) : UInt32 :=
  if x.isNegative then 0 else UInt32.ofNat (x.truncated 0xffffffff)

/-- The number as 32 bits with a sign, by the same rules. -/
def toInt32 (x : Binary64) : Int32 :=
  if x.isNegative then Int32.ofInt (-(x.truncated 0x80000000 : Int))
  else Int32.ofInt (x.truncated 0x7fffffff)

/-- The nearest number of binary32. What is no number keeps its sign and its highest bits. -/
def toBinary32 (x : Binary64) : Binary32 :=
  let sign := if x.isNegative then 0x80000000 else 0
  let magnitude :=
    if x.isNaN then
      BinaryFormat.single.infinity + 0x400000 + x.magnitude % 0x8000000000000 / 0x20000000
    else if x.isInfinite then BinaryFormat.single.infinity
    else
      let (n, d) := x.ratio
      BinaryFormat.single.round n d
  ⟨UInt32.ofNat (sign + magnitude)⟩

end Binary64

namespace Binary32

def zero : Binary32 := ⟨0⟩

/-- The number nearest to a natural number. -/
def ofNat (n : Nat) : Binary32 := ⟨UInt32.ofNat (BinaryFormat.single.round n 1)⟩

/-- The quotient of two natural numbers, each of which is rounded first. -/
def ratio (n d : Nat) : Binary32 :=
  ⟨UInt32.ofNat (BinaryFormat.single.div (ofNat n).bits.toNat (ofNat d).bits.toNat)⟩

end Binary32

end ComputeKernel
