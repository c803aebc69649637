/-
Values as documents.

`Value.document` renders a value: scalars as themselves, a list as an array, a record as the object of its visible
fields, and a pointer as what it points to. `Value.exposed` is the value without its hidden fields, at every depth:
two values of equal exposure agree on all their visible data.

`Value.Plain` says which values are rendered without loss: those of a type that documents can show (`Ty.Documentable`)
with no nil pointer among their visible data. Its laws go from a value to the parts of it that a document shows.
-/
import DynAssign.Lookup.Document
import DynAssign.Proofs.Fields

namespace DynAssign

namespace Value

mutual

/-- the value as a document; what a document cannot show is null -/
def document (S : Schema) : Value → Document
  | scalar (.bool b) => .bool b
  | scalar (.int k x) => .number (.integer (k.toInt x))
  | scalar (.string s) => .string s
  | list _ xs => .array (documents S xs)
  | ptr v | box v => v.document S
  | record name vs => .object (entries S (S.fields name) vs)
  | _ => .null

def documents (S : Schema) : List Value → List Document
  | [] => []
  | x :: xs => x.document S :: documents S xs

/-- the visible fields among some declarations, by name -/
def entries (S : Schema) : List FieldDecl → List Value → List (String × Document)
  | d :: ds, v :: vs => if d.visible then (d.name, v.document S) :: entries S ds vs else entries S ds vs
  | _, _ => []

end

mutual

/-- the value without its hidden fields, at every depth -/
def exposed (S : Schema) : Value → Value
  | any v => any (v.exposed S)
  | list e xs => list e (exposedAll S xs)
  | ptr v => ptr (v.exposed S)
  | box v => box (v.exposed S)
  | record name vs => record name (exposedFields S (S.fields name) vs)
  | v => v

def exposedAll (S : Schema) : List Value → List Value
  | [] => []
  | x :: xs => x.exposed S :: exposedAll S xs

/-- the visible ones among the values of some declared fields -/
def exposedFields (S : Schema) : List FieldDecl → List Value → List Value
  | d :: ds, v :: vs => if d.visible then v.exposed S :: exposedFields S ds vs else exposedFields S ds vs
  | _, _ => []

end

/-- a value is part of the visible data of another, at some depth -/
inductive Shows (S : Schema) : Value → Value → Prop where
  | here (v : Value) : Shows S v v
  | ptr {v u : Value} (h : Shows S v u) : Shows S (.ptr v) u
  | box {v u : Value} (h : Shows S v u) : Shows S (.box v) u
  | item {e : Ty} {xs : List Value} {x u : Value} (hx : x ∈ xs) (h : Shows S x u) : Shows S (.list e xs) u
  | field {name : String} {vs : List Value} {d : FieldDecl} {x u : Value} (hx : (d, x) ∈ (S.fields name).zip vs)
    (hd : d.visible = true) (h : Shows S x u) : Shows S (.record name vs) u

/-- no visible pointer is nil, at any depth -/
def NoNil (S : Schema) (v : Value) : Prop := ∀ t, ¬ v.Shows S (.nil t)

end Value

/-- A type that documents can show: truth values, integers, text, records of a good name, pointers to such types, and
lists of them. Lists inside a list hold no records, pointers of the element types aside. -/
def Ty.Documentable (good : String → Prop) : Ty → Prop
  | .scalar .bool | .scalar (.int _) | .scalar .string => True
  | .option t | .box t => t.Documentable good
  | .slice e => e.Documentable good ∧ ∀ inner name, e.resolved = .slice inner → inner.resolved ≠ .record name
  | .record name => good name
  | _ => False

/-- all visible fields of the good records are of types that documents can show -/
def Schema.Closed (S : Schema) (good : String → Prop) : Prop :=
  ∀ name, good name → ∀ d ∈ S.fields name, d.visible = true → d.ty.Documentable good

/-- a record that documents can show, down to the records in its visible fields -/
def Schema.Documentable (S : Schema) (name : String) : Prop := ∃ good, good name ∧ S.Closed good

theorem Ty.Documentable.resolved {good : String → Prop} {t : Ty} (h : t.Documentable good) :
    t.resolved.Documentable good := by
  induction t with
  | option t ih => exact ih h
  | box t ih => exact ih h
  | _ => exact h

namespace Value

variable {S : Schema}

/-! ## Layers -/

@[simp] theorem document_chainEnd (v : Value) : v.chainEnd.document S = v.document S := by
  fun_induction chainEnd v with
  | case1 v ih => rw [ih, document]
  | case2 v ih => rw [ih, document]
  | case3 => rfl

@[simp] theorem exposed_layered (t : Ty) (v : Value) : (layered t v).exposed S = layered t (v.exposed S) := by
  fun_induction layered t v with
  | case1 v t ih => rw [exposed, ih, layered]
  | case2 v t ih => rw [exposed, ih, layered]
  | case3 t v h1 h2 => cases t <;> simp_all [layered]

/-! ## Values without nil pointers -/

@[simp] theorem noNil_scalar (s : Scalar) : NoNil S (scalar s) := by
  intro t h
  cases h

@[simp] theorem noNil_ptr {v : Value} : NoNil S (ptr v) ↔ NoNil S v := by
  refine ⟨fun h t ht => h t (.ptr ht), fun h t ht => ?_⟩
  cases ht with
  | ptr ht => exact h t ht

@[simp] theorem noNil_box {v : Value} : NoNil S (box v) ↔ NoNil S v := by
  refine ⟨fun h t ht => h t (.box ht), fun h t ht => ?_⟩
  cases ht with
  | box ht => exact h t ht

@[simp] theorem noNil_list {e : Ty} {xs : List Value} : NoNil S (list e xs) ↔ ∀ x ∈ xs, NoNil S x := by
  refine ⟨fun h x hx t ht => h t (.item hx ht), fun h t ht => ?_⟩
  cases ht with
  | item hx ht => exact h _ hx t ht

@[simp] theorem noNil_record {name : String} {vs : List Value} :
    NoNil S (record name vs) ↔ ∀ p ∈ (S.fields name).zip vs, p.1.visible = true → NoNil S p.2 := by
  refine ⟨fun h p hp hd t ht => h t (.field hp hd ht), fun h t ht => ?_⟩
  cases ht with
  | field hp hd ht => exact h _ hp hd t ht

/-- a value without nil pointers is settled, and so is what lies behind its layers -/
theorem NoNil.chainEnd {v : Value} (h : NoNil S v) : v.IsSettled ∧ NoNil S v.chainEnd := by
  unfold IsSettled
  fun_induction Value.chainEnd v with
  | case1 v ih => exact ih (noNil_ptr.1 h)
  | case2 v ih => exact ih (noNil_box.1 h)
  | case3 v h1 h2 =>
    refine ⟨?_, h⟩
    cases v with
    | nil t => exact absurd (.here _) (h t)
    | _ => simp_all [isPointer, ty, Ty.isPointer]

/-! ## Parts of a record -/

theorem documents_eq_map (xs : List Value) : documents S xs = xs.map (document S) := by
  induction xs with
  | nil => rfl
  | cons x xs ih => rw [documents, ih, List.map_cons]

theorem mem_entries {ds : List FieldDecl} {vs : List Value} {d : FieldDecl} {x : Value} (hx : (d, x) ∈ ds.zip vs)
    (hd : d.visible = true) : (d.name, x.document S) ∈ entries S ds vs := by
  induction ds generalizing vs with
  | nil => simp at hx
  | cons d' ds ih => cases vs with
    | nil => simp at hx
    | cons v vs =>
      rw [List.zip_cons_cons, List.mem_cons] at hx
      rw [entries]
      rcases hx with hx | hx
      · cases hx
        rw [if_pos hd]
        exact List.mem_cons_self
      · have hrest := ih hx
        split
        · exact List.mem_cons_of_mem _ hrest
        · exact hrest

theorem names_entries_sublist (ds : List FieldDecl) (vs : List Value) :
    ((entries S ds vs).map (·.1)).Sublist (ds.map (·.name)) := by
  induction ds generalizing vs with
  | nil => simp [entries]
  | cons d ds ih => cases vs with
    | nil => simp [entries]
    | cons v vs =>
      rw [entries]
      split
      · exact (ih vs).cons_cons d.name
      · exact (ih vs).cons d.name

theorem map_ty_of_zip {ds : List FieldDecl} {vs : List Value} (hty : vs.map ty = ds.map (·.ty)) {d : FieldDecl}
    {x : Value} (hx : (d, x) ∈ ds.zip vs) : x.ty = d.ty := by
  induction ds generalizing vs with
  | nil => simp at hx
  | cons d' ds ih => cases vs with
    | nil => simp at hx
    | cons v vs =>
      simp only [List.map_cons, List.cons.injEq] at hty
      rw [List.zip_cons_cons, List.mem_cons] at hx
      rcases hx with hx | hx
      · cases hx
        exact hty.1
      · exact ih hty.2 hx

/-! ## Plain values -/

/-- a value that a document shows without loss -/
structure Plain (S : Schema) (good : String → Prop) (v : Value) : Prop where
  typed : WellTyped S v
  documentable : v.ty.Documentable good
  noNil : NoNil S v

namespace Plain

variable {good : String → Prop} {v : Value}

theorem settled (h : Plain S good v) : v.IsSettled := h.noNil.chainEnd.1

theorem chainEnd (h : Plain S good v) : Plain S good v.chainEnd where
  typed := wellTyped_chainEnd h.typed
  documentable := by
    rw [h.settled.ty_chainEnd]
    exact h.documentable.resolved
  noNil := h.noNil.chainEnd.2

theorem item {e : Ty} {xs : List Value} (h : Plain S good (.list e xs)) {x : Value} (hx : x ∈ xs) :
    x.ty = e ∧ Plain S good x := by
  obtain ⟨hty, htyped⟩ := WellTyped.list_iff.1 h.typed x hx
  refine ⟨hty, htyped, ?_, noNil_list.1 h.noNil x hx⟩
  rw [hty]
  exact h.documentable.1

theorem field {name : String} {vs : List Value} (h : Plain S good (.record name vs)) (hgood : S.Closed good)
    {d : FieldDecl} {x : Value} (hx : (d, x) ∈ (S.fields name).zip vs) (hd : d.visible = true) :
    x.ty = d.ty ∧ Plain S good x := by
  obtain ⟨hty, htyped⟩ := WellTyped.record_iff.1 h.typed
  have hxty := map_ty_of_zip hty hx
  refine ⟨hxty, htyped x (List.of_mem_zip hx).2, ?_, noNil_record.1 h.noNil _ hx hd⟩
  rw [hxty]
  exact hgood name h.documentable d (List.of_mem_zip hx).1 hd

end Plain

end Value

end DynAssign
