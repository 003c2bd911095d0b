/-!
# Numbers of JSON

A number is written as an optional minus sign, digits without a needless zero in front, an
optional fraction and an optional exponent. `number?` reads one at the front of a text and keeps
its digits; `natural?` and `Decimal.ofDigits` say what the digits mean. A decimal number holds no
more digits than 64 bits do.
-/

namespace ComputeKernel.Json

/-- The digits at the front of a text, at least one, and what follows them. -/
def digits? (cs : List Char) : Option (List Char × List Char) :=
  match cs.takeWhile Char.isDigit with
  | [] => none
  | ds => some (ds, cs.dropWhile Char.isDigit)

/-- The digits before the point: a zero stands alone. -/
def integer? : List Char → Option (List Char × List Char)
  | '0' :: r => some (['0'], r)
  | cs => digits? cs

/-- The fraction at the front of a text, which may be missing but not incomplete. -/
def fraction? : List Char → Option (List Char × List Char)
  | '.' :: r => (digits? r).map fun p => ('.' :: p.1, p.2)
  | cs => some ([], cs)

/-- The exponent at the front of a text, which may be missing but not incomplete. -/
def exponent? : List Char → Option (List Char × List Char)
  | [] => some ([], [])
  | c :: r =>
    if c == 'e' || c == 'E' then
      match r with
      | [] => none
      | s :: t =>
        if s == '+' || s == '-' then (digits? t).map fun p => (c :: s :: p.1, p.2)
        else (digits? (s :: t)).map fun p => (c :: p.1, p.2)
    else some ([], c :: r)

/-- The number without a sign at the front of a text, and what follows it. -/
def unsigned? (cs : List Char) : Option (List Char × List Char) :=
  match integer? cs with
  | none => none
  | some (i, r) =>
    match fraction? r with
    | none => none
    | some (f, r) => (exponent? r).map fun p => (i ++ f ++ p.1, p.2)

/-- The number at the front of a text, and what follows it. -/
def number? : List Char → Option (List Char × List Char)
  | '-' :: r => (unsigned? r).map fun p => ('-' :: p.1, p.2)
  | cs => unsigned? cs

/-- The value of decimal digits. -/
def digitsValue (ds : List Char) : Nat :=
  ds.foldl (fun n d => n * 10 + (d.toNat - '0'.toNat)) 0

/-- The value of a number that is nothing but digits. -/
def natural? (digits : List Char) : Option Nat :=
  if !digits.isEmpty && digits.all Char.isDigit then some (digitsValue digits) else none

/-- The digits of a natural number. -/
def naturalDigits (n : Nat) : List Char := Nat.toDigits 10 n

end ComputeKernel.Json

namespace ComputeKernel

/-- A decimal number: `digits` times ten to the power of `exponent`, with a sign. -/
structure Decimal where
  negative : Bool
  digits : Nat
  exponent : Int
  deriving DecidableEq, Repr

namespace Decimal

open Json

/-- Puts digits behind a number for as long as 64 bits hold it, and leaves the others. -/
def takeDigits (n : Nat) : List Char → Nat × List Char
  | [] => (n, [])
  | d :: r =>
    let m := n * 10 + (d.toNat - '0'.toNat)
    if m < UInt64.size then takeDigits m r else (n, d :: r)

/-- The power of ten behind the letter of an exponent. -/
def ofExponent : List Char → Int
  | _ :: '-' :: e => -(digitsValue e : Int)
  | _ :: '+' :: e => digitsValue e
  | _ :: e => digitsValue e
  | [] => 0

/-- What the digits of a number mean. Only as many digits count as 64 bits hold. Of the digits
before the point, each that does not count is a factor of ten. -/
def ofDigits (number : List Char) : Decimal :=
  let (negative, cs) := match number with
    | '-' :: r => (true, r)
    | cs => (false, cs)
  let (n, left) := takeDigits 0 (cs.takeWhile Char.isDigit)
  let r := cs.dropWhile Char.isDigit
  let (fraction, r) := match r with
    | '.' :: r => (r.takeWhile Char.isDigit, r.dropWhile Char.isDigit)
    | r => ([], r)
  let (m, unused) := takeDigits n fraction
  ⟨negative, m, ofExponent r + left.length + unused.length - fraction.length⟩

end Decimal

end ComputeKernel
