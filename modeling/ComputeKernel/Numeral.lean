import ComputeKernel.Binary

/-!
# Numerals

A double is shown by the fewest decimal digits that are read as it, and of these by the ones that
are nearest. They stand around a point, or before a power of ten if the number is very large or very
small.
-/

namespace ComputeKernel

/-- Digits with the place of the point: so many of them stand before it, and none if it is negative.
-/
structure Numeral where
  digits : List Char
  point : Int
  deriving DecidableEq, Repr

namespace Numeral

/-- Digits without the zeros at their end. -/
def trimmed (digits : List Char) : List Char :=
  (digits.reverse.dropWhile (· == '0')).reverse

/-- The numeral around a point, with a digit on either side of it. -/
def plain (n : Numeral) : String :=
  let before := n.digits.take n.point.toNat ++
    List.replicate (n.point.toNat - n.digits.length) '0'
  let after := List.replicate (-n.point).toNat '0' ++ n.digits.drop n.point.toNat
  let orZero := fun (cs : List Char) => if cs.isEmpty then ['0'] else cs
  String.ofList (orZero before ++ '.' :: orZero after)

/-- The numeral before a power of ten. -/
def scientific (n : Numeral) : String :=
  let after := n.digits.drop 1
  String.ofList (n.digits.take 1 ++ if after.isEmpty then [] else '.' :: after) ++ "e" ++
    toString (n.point - 1)

end Numeral

namespace Binary64

/-- The place of the point in a positive ratio: how many digits it has before the point, or how many
zeros behind the point, as a negative number. -/
def pointOf (n d : Nat) : Int :=
  if d ≤ n then (Nat.toDigits 10 (n / d)).length
  else 1 - ((Nat.toDigits 10 ((d - 1) / n)).length : Int)

/-- A ratio times a power of ten, as a ratio. -/
def scaleTen (n d : Nat) : Int → Nat × Nat
  | .ofNat e => (n * Nat.pow 10 e, d)
  | .negSucc e => (n, d * Nat.pow 10 (e + 1))

/-- The nearest number of `count` digits that is read as the magnitude of a ratio, if there is one.
-/
def digitsOf? (magnitude n d count : Nat) : Option Nat :=
  let e := pointOf n d - count
  let (a, b) := scaleTen n d (-e)
  let reads := fun (m : Nat) =>
    let (p, q) := scaleTen m 1 e
    BinaryFormat.double.round p q == magnitude
  let low := a / b
  let nearest := if 2 * (a % b) < b then [low, low + 1] else [low + 1, low]
  nearest.find? reads

/-- The shortest numeral of a positive finite number. Seventeen digits are always enough. -/
def numeral (x : Binary64) : Numeral :=
  let (n, d) := x.ratio
  let attempt := fun count => (digitsOf? x.magnitude n d count).map fun m =>
    let digits := Nat.toDigits 10 m
    ⟨Numeral.trimmed digits, pointOf n d + (digits.length - count : Int)⟩
  ((List.range 17).findSome? fun i => attempt (i + 1)).getD ⟨[], 0⟩

/-- A dump of the number. -/
def dump (x : Binary64) : String :=
  if x.isNaN then "NaN"
  else
    let sign := if x.isNegative then "-" else ""
    if x.isInfinite then sign ++ "inf"
    else if x.magnitude = 0 then sign ++ "0.0"
    else
      let (n, d) := x.ratio
      let isFar := decide (Nat.pow 10 16 * d ≤ n ∨ n * Nat.pow 10 4 < d)
      sign ++ if isFar then x.numeral.scientific else x.numeral.plain

end Binary64

end ComputeKernel
