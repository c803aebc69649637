/-
How a decimal numeral d · 10^x is laid out as text.

- `Decimal.positional` writes every digit at its place, with zeros where there are none.
- `Decimal.scientific` writes one digit before the point and the exponent after `e`.
- `RealStyle` says which of the two is used and whether whole numbers keep a fraction; `plain` and `tagged` are the two
  styles that the library prints with.
-/
import DynAssign.Numeric.Decimal

namespace DynAssign

/-- the decimal digits of a number -/
def digitText (n : Nat) : String := toString n

namespace Decimal

/-- the power of ten of the leading digit -/
def leading (d : Decimal) : Int := (digitText d.digits).length + d.exponent - 1

/-- all digits at their places; a whole number ends in `.0` if asked to -/
def positional (d : Decimal) (wholeFraction : Bool) : String :=
  let ds := (digitText d.digits).toList
  let point := d.leading + 1
  let zeros (n : Int) : List Char := List.replicate n.toNat '0'
  if 0 ≤ d.exponent then
    String.ofList (ds ++ zeros d.exponent ++ if wholeFraction then ['.', '0'] else [])
  else if 0 < point then
    String.ofList (ds.take point.toNat ++ '.' :: ds.drop point.toNat)
  else
    String.ofList ('0' :: '.' :: zeros (-point) ++ ds)

/-- one digit, the other digits behind a point, the exponent of the leading digit -/
def scientific (d : Decimal) : String :=
  let mantissa := match (digitText d.digits).toList with
    | c :: r@(_ :: _) => c :: '.' :: r
    | ds => ds
  String.ofList mantissa ++ "e" ++ toString d.leading

end Decimal

/-- how floating-point numbers are printed -/
structure RealStyle where
  /-- whole numbers end in `.0` -/
  wholeFraction : Bool
  /-- numbers whose leading digit stands at 10^k for k outside [lo, hi) are written with an exponent -/
  exponentOutside : Option (Int × Int)

namespace RealStyle

/-- the style of a value turned into text: always positional -/
def plain : RealStyle := ⟨false, none⟩

/-- the style of a value shown with its kind: exponents below 10^-4 and from 10^16 on -/
def tagged : RealStyle := ⟨true, some (-4, 16)⟩

def decimal (style : RealStyle) (d : Decimal) : String :=
  match style.exponentOutside with
  | some (lo, hi) =>
    if lo ≤ d.leading ∧ d.leading < hi then d.positional style.wholeFraction else d.scientific
  | none => d.positional style.wholeFraction

/-- the text of a pattern: shortest digits, the sign of zero kept, nan without a sign -/
def print (style : RealStyle) (p : Precision) (x : BitVec p.bits) : String :=
  match p.read x with
  | .nan _ => "NaN"
  | .infinite negative => if negative then "-inf" else "inf"
  | .finite negative m e =>
    let sign := if negative then "-" else ""
    if m = 0 then sign ++ style.decimal ⟨0, 0⟩ else sign ++ style.decimal (Decimal.shortest p m e)

end RealStyle

end DynAssign
