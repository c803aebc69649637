/-
Conversion of one scalar into another kind.

Every source is first read as a number, an exact integer or a double, and then cut to the destination.
- Integers wrap modulo the destination's width; a negative number becomes 0 in an unsigned kind.
- Floating-point numbers lose their fraction and are clamped to 64 bits before they wrap.
- Text is read in the integer grammar if the integer fits 64 bits, signed or unsigned, and in the grammar of decimal
  numerals otherwise; floating-point kinds use the latter alone.
- Truth values count as 0 and 1, a nonzero number is true, and text has a few spellings of its own for the two.
- Everything becomes text by its plain form.
-/
import DynAssign.Scalar.Basic
import DynAssign.Text.Numeral

namespace DynAssign

-- powers are the ones of the core library, whatever else is imported
attribute [local instance (high)] instPowNat

/-- the widest readings of a numeric source -/
inductive Number where
  | integer (n : Int)
  | real (x : BitVec Precision.double.bits)
deriving DecidableEq, Repr

namespace Number

/-- the number that a scalar other than text stands for -/
def ofScalar? : Scalar → Option Number
  | .bool b => some (.integer (if b then 1 else 0))
  | .int k x => some (.integer (k.toInt x))
  | .float p x => some (.real (p.convert .double x))
  | .string _ => none

/-- text in the grammar of decimal numerals -/
def ofNumeral? (s : String) : Option Number :=
  (Numeral.parse? s.toList).map fun n => .real (n.pattern .double)

/-- the integers that 64 bits hold, signed or unsigned -/
def fits (n : Int) : Bool := -(2 ^ (63 : Nat)) ≤ n && n < 2 ^ (64 : Nat)

/-- text read as an integer if it is one that fits, as a decimal numeral otherwise -/
def ofText? (s : String) : Option Number :=
  match (integer? s.toList).filter fits with
  | some n => some (.integer n)
  | none => ofNumeral? s

def isNonzero : Number → Bool
  | integer n => n ≠ 0
  | real x => !(Precision.double.read x).isZero

/-- a number as a word: a negative number is clamped to 0 by an unsigned kind, all else wraps -/
def toWord (k : IntKind) : Number → BitVec k.bits
  | integer n => if !k.signed ∧ n < 0 then 0 else k.wrap n
  | real x =>
    let y := Precision.double.read x
    k.wrap (if k.signed then y.truncate (-(2 ^ (63 : Nat))) (2 ^ (63 : Nat) - 1) else y.truncate 0 (2 ^ (64 : Nat) - 1))

/-- a number as a floating-point pattern, rounded once -/
def toPattern (p : Precision) : Number → BitVec p.bits
  | integer n => p.ofInt n
  | real x => Precision.double.convert p x

end Number

/-- the spellings of the two truth values -/
def truth? (s : String) : Option Bool :=
  if s ∈ ["1", "t", "T", "TRUE", "true", "True"] then some true
  else if s ∈ ["0", "f", "F", "FALSE", "false", "False"] then some false
  else none

namespace Scalar

/-- what an integer kind reads in a scalar -/
def integerReading? : Scalar → Option Number
  | string s => Number.ofText? s
  | s => Number.ofScalar? s

/-- what a floating-point kind reads in a scalar -/
def realReading? : Scalar → Option Number
  | string s => Number.ofNumeral? s
  | s => Number.ofScalar? s

/-- what the truth values read in a scalar -/
def truthReading? : Scalar → Option Bool
  | bool b => some b
  | string s => truth? s <|> (Number.ofNumeral? s).map Number.isNonzero
  | s => (Number.ofScalar? s).map Number.isNonzero

/-- the scalar converted to a kind, if its text can be read there -/
def convert? (src : Scalar) : ScalarKind → Option Scalar
  | .bool => src.truthReading?.map bool
  | .int k => src.integerReading?.map fun n => int k (n.toWord k)
  | .float p => src.realReading?.map fun n => float p (n.toPattern p)
  | .string => some (string src.plain)

theorem kind_of_convert? {src s : Scalar} {k : ScalarKind} (h : src.convert? k = some s) : s.kind = k := by
  cases k <;> simp only [convert?, Option.map_eq_some_iff, Option.some.injEq] at h
  case string => subst h; rfl
  all_goals obtain ⟨_, _, rfl⟩ := h; rfl

end Scalar

end DynAssign
