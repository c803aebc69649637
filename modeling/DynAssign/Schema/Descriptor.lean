/-
Shapes and descriptors: what is known of a type.

- `Schema.shape` is the raw shape of a type, one layer deep.
- `Schema.descriptor` is the resolved summary: layers of indirection are gone through, and the type at the end of the
  chain is classified. The untyped nil has the empty descriptor.

Main statement: layers of indirection do not show in a descriptor (`descriptor_option`, `descriptor_box`).
-/
import DynAssign.Schema.Basic

namespace DynAssign

/-- the raw shape of a type, its layers of indirection not gone through -/
inductive Shape where
  | scalar (k : ScalarKind)
  | slice (elem : Ty)
  | map (key elem : Ty)
  | record (fields : List VisibleField)
  | pointer (pointee : Ty)
  | dynamic
  | nil
  | sealed
deriving DecidableEq, Repr

/-- classification of a resolved type; `other` covers the untyped nil, dynamic slots and sealed types -/
inductive Kind where
  | scalar
  | map
  | slice
  | record
  | other
deriving DecidableEq, Repr

/-- the word for a classification -/
def Kind.name : Kind → String
  | scalar => "Scalar"
  | map => "Map"
  | slice => "Slice"
  | record => "Struct"
  | other => "Other"

/-- the summary of a resolved type -/
structure Descriptor where
  kind : Kind
  scalar : Option ScalarKind
  /-- the type at the end of the chain, none for the untyped nil -/
  ty : Option Ty
  /-- the declared element type of a container -/
  elemType : Option Ty
  fields : List VisibleField
deriving DecidableEq, Repr

namespace Descriptor

/-- the descriptor of the untyped nil -/
def empty : Descriptor := ⟨.other, none, none, none, []⟩

/-- the descriptor of a type with a shape -/
def ofShape (t : Ty) : Shape → Descriptor
  | .scalar k => { empty with kind := .scalar, scalar := some k, ty := some t }
  | .slice e => { empty with kind := .slice, ty := some t, elemType := some e }
  | .map _ e => { empty with kind := .map, ty := some t, elemType := some e }
  | .record fs => { empty with kind := .record, ty := some t, fields := fs }
  | .nil => empty
  | .pointer _ | .dynamic | .sealed => { empty with ty := some t }

def isScalar (d : Descriptor) : Bool := d.kind = .scalar

def isMap (d : Descriptor) : Bool := d.kind = .map

def isSlice (d : Descriptor) : Bool := d.kind = .slice

def isRecord (d : Descriptor) : Bool := d.kind = .record

/-- describes the untyped nil -/
def isNil (d : Descriptor) : Bool := d.ty.isNone

/-- the name of the resolved type -/
def typeName (d : Descriptor) : String := (d.ty.map Ty.fullName).getD "nil"

/-- the visible field of a name, the first one if several share it -/
def field? (d : Descriptor) (name : String) : Option VisibleField := d.fields.find? (·.name = name)

end Descriptor

namespace Schema

/-- the raw shape of a type -/
def shape (S : Schema) : Ty → Shape
  | .scalar k => .scalar k
  | .literal => .scalar .string
  | .unit => .nil
  | .any => .dynamic
  | .sealed _ => .sealed
  | .slice e => .slice e
  | .map _ k e => .map (.scalar k) e
  | .option t | .box t => .pointer t
  | .record name => .record (S.visible name)

/-- the descriptor of the type at the end of a chain -/
def descriptor (S : Schema) (t : Ty) : Descriptor := .ofShape t.resolved (S.shape t.resolved)

@[simp] theorem descriptor_option (S : Schema) (t : Ty) : S.descriptor (.option t) = S.descriptor t := rfl

@[simp] theorem descriptor_box (S : Schema) (t : Ty) : S.descriptor (.box t) = S.descriptor t := rfl

theorem isRecord_iff (S : Schema) (t : Ty) :
    (S.descriptor t).isRecord = true ↔ ∃ name, t.resolved = .record name := by
  have h := t.resolved_isPointer
  rw [Descriptor.isRecord, decide_eq_true_eq, descriptor]
  cases hr : t.resolved <;> simp_all [shape, Descriptor.ofShape, Descriptor.empty, Ty.isPointer]

theorem isSlice_iff (S : Schema) (t : Ty) : (S.descriptor t).isSlice = true ↔ ∃ e, t.resolved = .slice e := by
  have h := t.resolved_isPointer
  rw [Descriptor.isSlice, decide_eq_true_eq, descriptor]
  cases hr : t.resolved <;> simp_all [shape, Descriptor.ofShape, Descriptor.empty, Ty.isPointer]

theorem elemType_of_resolved_slice (S : Schema) {t e : Ty} (h : t.resolved = .slice e) :
    (S.descriptor t).elemType = some e := by
  rw [descriptor, h]
  rfl

theorem fields_of_resolved_record (S : Schema) {t : Ty} {name : String} (h : t.resolved = .record name) :
    (S.descriptor t).fields = S.visible name := by
  rw [descriptor, h]
  rfl

theorem sizeOf_elemType_le (S : Schema) (t : Ty) : sizeOf (S.descriptor t).elemType ≤ sizeOf t := by
  have h := t.sizeOf_resolved_le
  rw [descriptor]
  cases hr : t.resolved <;> rw [hr] at h <;> simp [shape, Descriptor.ofShape, Descriptor.empty] at h ⊢ <;> omega

@[simp] theorem descriptor_resolved (S : Schema) (t : Ty) : S.descriptor t.resolved = S.descriptor t := by
  rw [descriptor, descriptor, Ty.resolved_resolved]

/-- a source of this type says nothing about the value to assign: its chain ends in the untyped nil, in a dynamic slot
or in a sealed type -/
def isVoid (S : Schema) (t : Ty) : Bool := (S.descriptor t).kind = .other

theorem kind_ofShape_eq_other_iff (S : Schema) {t : Ty} (h : t.isPointer = false) :
    (Descriptor.ofShape t (S.shape t)).kind = .other ↔ t = .unit ∨ t = .any ∨ ∃ name, t = .sealed name := by
  cases t <;> simp_all [shape, Descriptor.ofShape, Descriptor.empty, Ty.isPointer]

theorem isVoid_iff (S : Schema) (t : Ty) :
    S.isVoid t = true ↔ t.resolved = .unit ∨ t.resolved = .any ∨ ∃ name, t.resolved = .sealed name := by
  rw [isVoid, decide_eq_true_eq]
  exact kind_ofShape_eq_other_iff S t.resolved_isPointer

end Schema

end DynAssign
