/-
The closed set of scalar kinds: truth values, ten integer kinds, two floating-point kinds and text.

An integer kind is a width and a signedness; the two kinds named for sizes are 64 bits wide and stay distinct from the
kinds of the same range.
-/
import DynAssign.Numeric.Binary

namespace DynAssign

inductive IntWidth where
  | w8
  | w16
  | w32
  | w64
  /-- the width of a size in memory -/
  | size
deriving DecidableEq, Repr

@[reducible] def IntWidth.bits : IntWidth → Nat
  | w8 => 8
  | w16 => 16
  | w32 => 32
  | w64 => 64
  | size => 64

structure IntKind where
  signed : Bool
  width : IntWidth
deriving DecidableEq, Repr

namespace IntKind

@[reducible] def bits (k : IntKind) : Nat := k.width.bits

/-- the integer that a word of this kind stands for -/
def toInt (k : IntKind) (x : BitVec k.bits) : Int := if k.signed then x.toInt else x.toNat

/-- the word of this kind congruent to an integer modulo 2^bits -/
def wrap (k : IntKind) (n : Int) : BitVec k.bits := BitVec.ofInt k.bits n

/-- the width as the names of kinds end in it -/
def widthText (k : IntKind) : String :=
  match k.width with
  | .w8 => "8"
  | .w16 => "16"
  | .w32 => "32"
  | .w64 => "64"
  | .size => "size"

def name (k : IntKind) : String := (if k.signed then "i" else "u") ++ k.widthText

/-- the kind's name in front of a tagged value -/
def tag (k : IntKind) : String := (if k.signed then "I" else "U") ++ k.widthText

/-- every integer kind, signed ones first -/
def all : List IntKind :=
  [⟨true, .w8⟩, ⟨true, .w16⟩, ⟨true, .w32⟩, ⟨true, .w64⟩, ⟨true, .size⟩,
   ⟨false, .w8⟩, ⟨false, .w16⟩, ⟨false, .w32⟩, ⟨false, .w64⟩, ⟨false, .size⟩]

end IntKind

inductive ScalarKind where
  | bool
  | int (k : IntKind)
  | float (p : Precision)
  | string
deriving DecidableEq, Repr

namespace ScalarKind

/-- the name of the kind, as faults name a scalar destination -/
def name : ScalarKind → String
  | bool => "bool"
  | int k => k.name
  | float .single => "f32"
  | float .double => "f64"
  | string => "String"

/-- the kind's name in front of a tagged value -/
def tag : ScalarKind → String
  | bool => "Bool"
  | int k => k.tag
  | float .single => "F32"
  | float .double => "F64"
  | string => "String"

/-- every scalar kind -/
def all : List ScalarKind :=
  .bool :: IntKind.all.map .int ++ [.float .single, .float .double, .string]

/-- the kind of a name -/
def ofName? (name : String) : Option ScalarKind := all.find? (·.name = name)

end ScalarKind

end DynAssign
