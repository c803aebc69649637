/-
Binary floating-point patterns in two precisions, read and written in integer arithmetic.

- `Precision.read` takes a pattern to what it denotes: no number, an infinity, or m · 2^e, each with its sign.
- `Precision.nearest` takes a ratio of natural numbers to the pattern nearest to it; a tie goes to the even significand
  and a ratio past the largest value goes to infinity.
- `Precision.write` is `nearest` on everything a pattern can denote, so `write q (read p x)` converts between widths
  with a single rounding.
- `Extended.truncate` drops the fraction and clamps into a range.

No machine arithmetic is used: a conversion is a statement about `Nat` and `Int`.
-/

namespace DynAssign

-- powers are the ones of the core library, whatever else is imported
attribute [local instance (high)] instPowNat

/-- the two widths of floating-point scalars -/
inductive Precision where
  | single
  | double
deriving DecidableEq, Repr

/-- what a floating-point pattern denotes; a finite value is ±m · 2^e, and zero and nan have signs too -/
inductive Extended where
  | nan (negative : Bool)
  | infinite (negative : Bool)
  | finite (negative : Bool) (m : Nat) (e : Int)
deriving DecidableEq, Repr

/-- the quotient rounded to the nearest natural number, a half to the even neighbour -/
def roundDiv (num den : Nat) : Nat :=
  let q := num / den
  let r := num % den
  if den < 2 * r ∨ (2 * r = den ∧ q % 2 = 1) then q + 1 else q

/-- the largest k with 2^k ≤ num / den, for positive num and den -/
def floorLog2 (num den : Nat) : Int :=
  let k : Int := (num.log2 : Int) - den.log2
  if den * 2 ^ k.toNat ≤ num * 2 ^ (-k).toNat then k else k - 1

namespace Precision

/-- width of a pattern: one sign bit, the exponent field, the fraction field -/
@[reducible] def bits : Precision → Nat
  | single => 32
  | double => 64

def exponentBits : Precision → Nat
  | single => 8
  | double => 11

def fractionBits : Precision → Nat
  | single => 23
  | double => 52

/-- every finite value is a multiple of 2^minExponent -/
def minExponent : Precision → Int
  | single => -149
  | double => -1074

/-- the pattern of positive infinity, read as a number; the finite patterns lie below it -/
def infinityBits (p : Precision) : Nat := (2 ^ p.exponentBits - 1) * 2 ^ p.fractionBits

/-- the weight of the sign bit -/
def signBit (p : Precision) (negative : Bool) : Nat := if negative then 2 ^ (p.bits - 1) else 0

/-- what a pattern denotes -/
def read (p : Precision) (x : BitVec p.bits) : Extended :=
  let fraction := x.toNat % 2 ^ p.fractionBits
  let field := x.toNat / 2 ^ p.fractionBits % 2 ^ p.exponentBits
  if field = 2 ^ p.exponentBits - 1 then
    if fraction = 0 then .infinite x.msb else .nan x.msb
  else if field = 0 then .finite x.msb fraction p.minExponent
  else .finite x.msb (2 ^ p.fractionBits + fraction) (p.minExponent + field - 1)

/-- the exponent of the last place of the value nearest to num / den -/
def placeFor (p : Precision) (num den : Nat) : Int :=
  max p.minExponent (floorLog2 num den - p.fractionBits)

/-- The pattern nearest to ±num / den. With the last place at 2^e, the significand m and the exponent field together
read as m + (e - minExponent) · 2^fractionBits: a carry out of the significand lands in the exponent by itself. -/
def nearest (p : Precision) (negative : Bool) (num den : Nat) : BitVec p.bits :=
  let e := p.placeFor num den
  let m := roundDiv (num * 2 ^ (-e).toNat) (den * 2 ^ e.toNat)
  let magnitude := if num = 0 then 0 else m + (e - p.minExponent).toNat * 2 ^ p.fractionBits
  BitVec.ofNat p.bits (min p.infinityBits magnitude + p.signBit negative)

/-- the pattern of what is denoted, rounded to the precision; one quiet pattern of each sign stands for nan -/
def write (p : Precision) : Extended → BitVec p.bits
  | .nan negative => BitVec.ofNat p.bits (p.infinityBits + 2 ^ (p.fractionBits - 1) + p.signBit negative)
  | .infinite negative => BitVec.ofNat p.bits (p.infinityBits + p.signBit negative)
  | .finite negative m e => p.nearest negative (m * 2 ^ e.toNat) (2 ^ (-e).toNat)

/-- the pattern nearest to an integer -/
def ofInt (p : Precision) (n : Int) : BitVec p.bits := p.nearest (n < 0) n.natAbs 1

/-- a pattern of one precision in another one -/
def convert (p q : Precision) (x : BitVec p.bits) : BitVec q.bits := q.write (p.read x)

/-- the product of two finite patterns, rounded once -/
def mul (p : Precision) (x y : BitVec p.bits) : BitVec p.bits :=
  match p.read x, p.read y with
  | .finite s m e, .finite t n f => p.write (.finite (s != t) (m * n) (e + f))
  | _, _ => p.write (.nan false)

/-- the quotient of two finite patterns, rounded once -/
def div (p : Precision) (x y : BitVec p.bits) : BitVec p.bits :=
  match p.read x, p.read y with
  | .finite s m e, .finite t n f => p.nearest (s != t) (m * 2 ^ (e - f).toNat) (n * 2 ^ (f - e).toNat)
  | _, _ => p.write (.nan false)

end Precision

namespace Extended

def isZero : Extended → Bool
  | .finite _ m _ => m = 0
  | _ => false

/-- the integer part, clamped into [lo, hi]; nan has integer part 0 -/
def truncate (lo hi : Int) : Extended → Int
  | .nan _ => 0
  | .infinite negative => if negative then lo else hi
  | .finite negative m e =>
    let whole : Int := (m * 2 ^ e.toNat / 2 ^ (-e).toNat : Nat)
    max lo (min hi (if negative then -whole else whole))

end Extended

end DynAssign
