/-
Decimal numerals d · 10^x, and the shortest one that stands for a binary value.

The reals that round to ±m · 2^e form an interval around it, closed iff m is even. `shortest` looks at decimal grids
from coarse to fine: the first grid with a point in the interval gives the digits, the point nearer to the value wins,
and of two equally near points the larger.
-/
import DynAssign.Numeric.Binary

namespace DynAssign

-- powers are the ones of the core library, whatever else is imported
attribute [local instance (high)] instPowNat

/-- digits · 10^exponent -/
structure Decimal where
  digits : Nat
  exponent : Int
deriving DecidableEq, Repr

/-- The positive reals that round to one binary value, measured in units of 2^unit: from `low` to `high` around
`mid`, the two ends included iff `closed`. -/
structure RoundingInterval where
  low : Nat
  mid : Nat
  high : Nat
  unit : Int
  closed : Bool
deriving Repr

namespace RoundingInterval

/-- The interval of m · 2^e reaches half a place to either side. Below a power of two the places are half as wide,
except at the bottom of the range. -/
def of (p : Precision) (m : Nat) (e : Int) : RoundingInterval :=
  let narrow := m = 2 ^ p.fractionBits ∧ p.minExponent < e
  { low := 4 * m - (if narrow then 1 else 2)
    mid := 4 * m
    high := 4 * m + 2
    unit := e - 2
    closed := m % 2 = 0 }

/-- x · 2^unit measured on the grid of 10^j is the ratio x · a / b of these two factors -/
def scale (i : RoundingInterval) (j : Int) : Nat × Nat :=
  (2 ^ i.unit.toNat * 10 ^ (-j).toNat, 2 ^ (-i.unit).toNat * 10 ^ j.toNat)

/-- c · 10^j lies in the interval -/
def holds (i : RoundingInterval) (j : Int) (c : Nat) : Bool :=
  let (a, b) := i.scale j
  if i.closed then i.low * a ≤ c * b && c * b ≤ i.high * a else i.low * a < c * b && c * b < i.high * a

/-- the point of the grid of 10^j that stands for the interval, if one of the middle's two neighbours lies in it -/
def point? (i : RoundingInterval) (j : Int) : Option Nat :=
  let (a, b) := i.scale j
  let c := i.mid * a / b
  match i.holds j c, i.holds j (c + 1) with
  | true, true => if 2 * (i.mid * a - c * b) < b then some c else some (c + 1)
  | true, false => some c
  | false, true => some (c + 1)
  | false, false => none

/-- the first grid with a point, going down from 10^j; past the last grid the interval's exact middle -/
def search (i : RoundingInterval) : Nat → Int → Decimal
  | 0, _ => ⟨i.mid * 2 ^ i.unit.toNat * 5 ^ (-i.unit).toNat, min 0 i.unit⟩
  | n + 1, j => match i.point? j with
    | some c => ⟨c, j⟩
    | none => i.search n (j - 1)

end RoundingInterval

/-- The shortest decimal that rounds to m · 2^e, for positive m. The search starts above the value's leading digit;
17 digits tell any two values apart, so it ends before its last grid. -/
def Decimal.shortest (p : Precision) (m : Nat) (e : Int) : Decimal :=
  (RoundingInterval.of p m e).search 24 ((m.log2 + 1 + e) * 30103 / 100000 + 2)

end DynAssign
