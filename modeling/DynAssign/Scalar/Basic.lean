/-
Scalar values and their two texts.

- `Scalar.plain` is the textual form that a scalar is turned into when text is asked for.
- `Scalar.tagged` shows the value behind the tag of its kind, with text in quotes.
- `Scalar.described` is the form in which a fault quotes a scalar that could not be converted.
-/
import DynAssign.Scalar.Kind
import DynAssign.Text.Layout
import DynAssign.Text.Quoted

namespace DynAssign

inductive Scalar where
  | bool (b : Bool)
  | int (k : IntKind) (x : BitVec k.bits)
  | float (p : Precision) (x : BitVec p.bits)
  | string (s : String)
deriving DecidableEq, Repr

namespace Scalar

def kind : Scalar → ScalarKind
  | bool _ => .bool
  | int k _ => .int k
  | float p _ => .float p
  | string _ => .string

/-- an integer as a scalar of an integer kind, modulo its width -/
def ofInt (k : IntKind) (n : Int) : Scalar := int k (k.wrap n)

/-- the zero of a kind: false, 0, positive zero, the empty text -/
def zero : ScalarKind → Scalar
  | .bool => .bool false
  | .int k => .int k 0
  | .float p => .float p 0
  | .string => .string ""

@[simp] theorem kind_zero (k : ScalarKind) : (zero k).kind = k := by cases k <;> rfl

/-- the scalar as text -/
def plain : Scalar → String
  | bool b => if b then "true" else "false"
  | int k x => toString (k.toInt x)
  | float p x => RealStyle.plain.print p x
  | string s => s

/-- the scalar inside the tag of its kind -/
def tagged (s : Scalar) : String :=
  s.kind.tag ++ "(" ++ (match s with
    | float p x => RealStyle.tagged.print p x
    | string t => quoted t
    | s => s.plain) ++ ")"

/-- the scalar as a fault quotes it: text in quotes, the rest plain -/
def described : Scalar → String
  | string s => quoted s
  | s => s.plain

/-- the order of map keys: by value inside one kind, text by code points -/
def before : Scalar → Scalar → Bool
  | bool a, bool b => !a && b
  | int j x, int k y => j.toInt x < k.toInt y
  | string s, string t => s < t
  | _, _ => false

end Scalar

end DynAssign
