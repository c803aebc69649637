/-
The numbers of a document.

A numeral without point and exponent that fits 64 bits, signed or unsigned, is that integer. Every other numeral is a
double: its leading digits, as many as fit an unsigned 64-bit word, make a significand, and the significand is
multiplied or divided by a power of ten. That is two roundings of numbers that are usually exact, so a numeral of few
digits gets the nearest double.
-/
import DynAssign.Scalar.Convert

namespace DynAssign

-- powers are the ones of the core library, whatever else is imported
attribute [local instance (high)] instPowNat

/-- the parts of a numeral as written: digits before and behind the point, and the exponent -/
structure DocumentNumeral where
  negative : Bool
  whole : List Char
  fraction : Option (List Char)
  exponent : Option Int
deriving Repr

namespace DocumentNumeral

/-- digits taken into a significand while it fits 64 bits, and the digits left over -/
def absorb : Nat → List Char → Nat × List Char
  | n, [] => (n, [])
  | n, c :: ds =>
    let m := 10 * n + (c.toNat - '0'.toNat)
    if m < 2 ^ (64 : Nat) then absorb m ds else (n, c :: ds)

/-- ten to a power, up to the largest one that is a double -/
def powerOfTen (n : Nat) : BitVec Precision.double.bits := Precision.double.nearest false (10 ^ min n 308) 1

/-- A positive double times 10^x, by one multiplication or division where 10^|x| is a double. A smaller power is
divided out in steps of 10^308, and after three of them nothing is left of a significand. -/
def scale (f : BitVec Precision.double.bits) (x : Int) : BitVec Precision.double.bits :=
  let rec down : Nat → BitVec Precision.double.bits → Nat → BitVec Precision.double.bits
    | 0, _, _ => 0
    | steps + 1, f, n =>
      if n ≤ 308 then Precision.double.div f (powerOfTen n)
      else down steps (Precision.double.div f (powerOfTen 308)) (n - 308)
  if f = 0 then 0
  else if x < 0 then down 4 f x.natAbs
  else if x ≤ 308 then Precision.double.mul f (powerOfTen x.toNat)
  else Precision.double.write (.infinite false)

/-- the number that a numeral stands for -/
def number (n : DocumentNumeral) : Number :=
  let (significand, rest) := absorb 0 n.whole
  let signed (x : BitVec Precision.double.bits) : BitVec Precision.double.bits :=
    if n.negative then x ||| BitVec.ofNat _ (2 ^ (63 : Nat)) else x
  match n.fraction, n.exponent, rest with
  | none, none, [] =>
    if !n.negative then .integer significand
    else if 0 < significand ∧ significand ≤ 2 ^ (63 : Nat) then .integer (-significand)
    else .real (signed (Precision.double.ofInt significand))
  | fraction, exponent, rest =>
    let digits := fraction.getD []
    let (significand, unread) := absorb significand digits
    let x : Int := rest.length - (digits.length - unread.length : Nat) + exponent.getD 0
    .real (signed (scale (Precision.double.ofInt significand) x))

end DocumentNumeral

end DynAssign
