/-
Record declarations, and the schema that holds them.

A record declares its fields in order; a field has a name, a declared type, annotations, and is visible or hidden. Only
visible fields can be reached through the library, and they are counted on their own: `VisibleField.index` counts
visible fields, `VisibleField.position` all of them.

A schema gives every record name its fields, an unknown name none. The fields of a record have different names. A
record may contain itself behind an optional pointer or in a list only: `Schema.rank_lt` is that rule, and it makes the
zero value of every type finite. `Schema.ofDecls?` builds a schema from declarations in which each record stands after
the records inlined in it.
-/
import DynAssign.Schema.Ty

namespace DynAssign

/-- annotations of a field, key and value, in the order written -/
abbrev Tags := List (String × String)

structure FieldDecl where
  name : String
  ty : Ty
  tags : Tags
  visible : Bool
deriving DecidableEq, Repr

structure RecordDecl where
  name : String
  fields : List FieldDecl
deriving DecidableEq, Repr

/-- what is known of a visible field -/
structure VisibleField where
  name : String
  /-- the declared type, its layers of indirection kept -/
  ty : Ty
  tags : Tags
  /-- number of the field among the visible ones -/
  index : Nat
  /-- number of the field among all of them -/
  position : Nat
deriving DecidableEq, Repr

/-- the visible fields of a list of declarations that starts at the given index and position -/
def visibleFrom : (index position : Nat) → List FieldDecl → List VisibleField
  | _, _, [] => []
  | i, p, f :: fs =>
    if f.visible then ⟨f.name, f.ty, f.tags, i, p⟩ :: visibleFrom (i + 1) (p + 1) fs
    else visibleFrom i (p + 1) fs

structure Schema where
  /-- the declared fields of a record, hidden ones included -/
  fields : String → List FieldDecl
  /-- how deep records are inlined in a record -/
  rank : String → Nat
  rank_lt : ∀ r, ∀ f ∈ fields r, ∀ inner ∈ f.ty.inlined?, rank inner < rank r
  names_nodup : ∀ r, ((fields r).map (·.name)).Nodup

namespace Schema

/-- the visible fields of a record, in declaration order -/
def visible (S : Schema) (record : String) : List VisibleField := visibleFrom 0 0 (S.fields record)

/-- the place of the first declaration of a name -/
def declaredAt (ds : List RecordDecl) (name : String) : Nat := ds.findIdx (·.name = name)

/-- each record stands after the records inlined in its fields -/
def InOrder (ds : List RecordDecl) : Prop :=
  ∀ d ∈ ds, ∀ f ∈ d.fields, ∀ inner ∈ f.ty.inlined?, declaredAt ds inner < declaredAt ds d.name

instance (ds : List RecordDecl) : Decidable (InOrder ds) := by
  unfold InOrder; infer_instance

/-- the fields of each record have different names -/
def NamesDistinct (ds : List RecordDecl) : Prop := ∀ d ∈ ds, (d.fields.map (·.name)).Nodup

instance (ds : List RecordDecl) : Decidable (NamesDistinct ds) := by
  unfold NamesDistinct; infer_instance

/-- the schema of a list of declarations, the first one of a name counting -/
def ofDecls (ds : List RecordDecl) (h : InOrder ds) (hnames : NamesDistinct ds) : Schema where
  fields r := ((ds.find? (·.name = r)).map (·.fields)).getD []
  rank := declaredAt ds
  rank_lt r f hf inner hi := by
    cases hd : ds.find? (·.name = r) with
    | none => simp [hd] at hf
    | some d =>
      have hn : d.name = r := by simpa using List.find?_some hd
      simp only [hd, Option.map_some, Option.getD_some] at hf
      exact hn ▸ h d (List.mem_of_find?_eq_some hd) f hf inner hi
  names_nodup r := by
    cases hd : ds.find? (·.name = r) with
    | none => simp
    | some d => exact hnames d (List.mem_of_find?_eq_some hd)

def ofDecls? (ds : List RecordDecl) : Option Schema :=
  if h : InOrder ds ∧ NamesDistinct ds then some (ofDecls ds h.1 h.2) else none

end Schema

end DynAssign
