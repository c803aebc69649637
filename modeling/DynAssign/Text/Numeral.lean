/-
Numerals in text: which strings are numbers, and which number each of them is.

- `integer?` accepts a sign and decimal digits.
- `Numeral.parse?` accepts a sign, then a named value (`inf`, `infinity`, `nan` in any case) or digits with an optional
  point and an optional exponent, at least one digit standing around the point.
- `Numeral.pattern` is the floating-point pattern nearest to a numeral.
-/
import DynAssign.Numeric.Decimal

namespace DynAssign

-- powers are the ones of the core library, whatever else is imported
attribute [local instance (high)] instPowNat

/-- the number a run of decimal digits stands for, most significant first -/
def ofDigits (ds : List Char) : Nat := ds.foldl (fun n c => 10 * n + (c.toNat - '0'.toNat)) 0

/-- a leading sign and what follows it; no sign reads as plus -/
def splitSign : List Char → Bool × List Char
  | '-' :: r => (true, r)
  | '+' :: r => (false, r)
  | r => (false, r)

/-- the integer written as an optional sign and one or more decimal digits -/
def integer? (s : List Char) : Option Int :=
  let (negative, ds) := splitSign s
  if ds ≠ [] ∧ ds.all Char.isDigit then
    some (if negative then -(ofDigits ds : Int) else (ofDigits ds : Int))
  else none

/-- what a numeral's text says -/
inductive Numeral where
  | nan (negative : Bool)
  | infinite (negative : Bool)
  | decimal (negative : Bool) (d : Decimal)
deriving DecidableEq, Repr

namespace Numeral

/-- the end of a decimal: nothing, or `e` in either case and an integer -/
def exponent? : List Char → Option Int
  | [] => some 0
  | c :: r => if c = 'e' ∨ c = 'E' then integer? r else none

/-- Digits, an optional point with digits behind it, and an exponent. The digits behind the point lower the exponent
by their number. -/
def decimal? (s : List Char) : Option Decimal :=
  let whole := s.takeWhile Char.isDigit
  let rest := s.dropWhile Char.isDigit
  let (fraction, tail) := match rest with
    | '.' :: r => (r.takeWhile Char.isDigit, r.dropWhile Char.isDigit)
    | r => ([], r)
  let ds := whole ++ fraction
  if ds = [] then none
  else (exponent? tail).map fun x => ⟨ofDigits ds, x - fraction.length⟩

/-- the named values, letter case aside -/
def named? (negative : Bool) (s : List Char) : Option Numeral :=
  let name := String.ofList (s.map Char.toLower)
  if name = "inf" ∨ name = "infinity" then some (.infinite negative)
  else if name = "nan" then some (.nan negative)
  else none

def parse? (s : List Char) : Option Numeral :=
  let (negative, r) := splitSign s
  (decimal? r).map (.decimal negative) <|> named? negative r

/-- The leading digit of a number from 10^310 on overflows and one below 10^-400 rounds to zero in either precision,
so the powers of ten that are computed stay small. -/
def pattern (p : Precision) : Numeral → BitVec p.bits
  | .nan negative => p.write (.nan negative)
  | .infinite negative => p.write (.infinite negative)
  | .decimal negative d =>
    let size := (Nat.toDigits 10 d.digits).length + d.exponent
    if d.digits = 0 ∨ size < -400 then p.write (.finite negative 0 0)
    else if 400 < size then p.write (.infinite negative)
    else p.nearest negative (d.digits * 10 ^ d.exponent.toNat) (10 ^ (-d.exponent).toNat)

end Numeral

end DynAssign
