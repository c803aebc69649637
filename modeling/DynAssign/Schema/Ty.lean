/-
Declared types of locations.

A type is a scalar, a container, a layer of indirection around another type, or the name of a record. Two types are the
same iff they are equal here: a record type is its name, and nothing is resolved. `Ty.resolved` goes through the layers
of indirection to the type at the end of the chain. `Ty.fullName` is the name under which messages, descriptors and
traces know a type; the name of a record is its own.
-/
import DynAssign.Scalar.Kind

namespace DynAssign

/-- the two containers with keys; they differ by name only -/
inductive MapKind where
  | hashed
  | ordered
deriving DecidableEq, Repr

inductive Ty where
  | scalar (k : ScalarKind)
  /-- fixed text: readable like a string, never converted into -/
  | literal
  /-- the type of the untyped nil -/
  | unit
  /-- a slot for a value of any type -/
  | any
  /-- a type without structure -/
  | sealed (name : String)
  | slice (elem : Ty)
  | map (kind : MapKind) (key : ScalarKind) (elem : Ty)
  /-- a pointer that may be nil -/
  | option (pointee : Ty)
  /-- a pointer that is never nil -/
  | box (pointee : Ty)
  | record (name : String)
deriving DecidableEq, Repr, Inhabited

namespace Ty

/-- one level of indirection, other than the dynamic slot -/
def isPointer : Ty → Bool
  | option _ | box _ => true
  | _ => false

/-- the type at the end of the pointer chain -/
def resolved : Ty → Ty
  | option t | box t => t.resolved
  | t => t

/-- the record whose value lies inside a value of the type itself, not behind an optional pointer or in a list -/
def inlined? : Ty → Option String
  | box t => t.inlined?
  | record name => some name
  | _ => none

@[simp] theorem resolved_isPointer (t : Ty) : t.resolved.isPointer = false := by
  induction t <;> simp_all [resolved, isPointer]

@[simp] theorem resolved_resolved (t : Ty) : t.resolved.resolved = t.resolved := by
  induction t <;> simp_all [resolved]

theorem resolved_of_not_isPointer {t : Ty} (h : t.isPointer = false) : t.resolved = t := by
  cases t <;> simp_all [resolved, isPointer]

theorem sizeOf_resolved_le (t : Ty) : sizeOf t.resolved ≤ sizeOf t := by
  induction t <;> simp_all [resolved] <;> omega

/-- the full name of a scalar type; only text has another one than its kind -/
def scalarName : ScalarKind → String
  | .string => "alloc::string::String"
  | k => k.name

/-- the full name of a type, arguments included -/
def fullName : Ty → String
  | scalar k => scalarName k
  | literal => "&str"
  | unit => "()"
  | any => "alloc::boxed::Box<dyn setter::reflect::Reflect>"
  | sealed name => name
  | slice e => "alloc::vec::Vec<" ++ e.fullName ++ ">"
  | map .hashed k e => "std::collections::hash::map::HashMap<" ++ scalarName k ++ ", " ++ e.fullName ++ ">"
  | map .ordered k e => "alloc::collections::btree::map::BTreeMap<" ++ scalarName k ++ ", " ++ e.fullName ++ ">"
  | option t => "core::option::Option<" ++ t.fullName ++ ">"
  | box t => "alloc::boxed::Box<" ++ t.fullName ++ ">"
  | record name => name

end Ty

end DynAssign
