/-
The visible fields of a record, by recursion on its declarations.

The operations find a field by its position among all fields. Here declarations and values are walked side by side,
which is what the induction of every statement on whole records goes along:
- `Value.fields?_record_eq_zip`: what is known of the visible fields is zipped with their values, and `visibleWith` is
  that list, met on the walk (`Value.fields?_record`);
- `Wrapper.fieldsOf_record`: enumeration zips it with the wrappers on the values;
- `Value.VisibleSettled`: no pointer on the chain of a visible field is nil. Allocation makes it so
  (`visibleSettled_allocateVisible`) and changes nothing where it is so (`allocateVisible_of_settled`).
-/
import DynAssign.Proofs.Storage

namespace DynAssign

/-- the visible fields among some declarations with their values, from an index and a position on -/
def visibleWith : (index position : Nat) → List FieldDecl → List Value → List (VisibleField × Value)
  | i, p, d :: ds, v :: vs =>
    if d.visible then (⟨d.name, d.ty, d.tags, i, p⟩, v) :: visibleWith (i + 1) (p + 1) ds vs
    else visibleWith i (p + 1) ds vs
  | _, _, _, _ => []

theorem le_position_of_mem {i p : Nat} {ds : List FieldDecl} {f : VisibleField} (h : f ∈ visibleFrom i p ds) :
    p ≤ f.position := by
  fun_induction visibleFrom i p ds with
  | case1 => simp at h
  | case2 i p d ds hd ih =>
    rcases List.mem_cons.1 h with rfl | h
    · exact Nat.le_refl _
    · have := ih h
      omega
  | case3 i p d ds hd ih =>
    have := ih h
    omega

/-- the values of the visible fields, in declaration order -/
def visibleValues (ds : List FieldDecl) (vs : List Value) : List Value :=
  ((ds.zip vs).filter (·.1.visible)).map Prod.snd

@[simp] theorem visibleValues_nil (ds : List FieldDecl) : visibleValues ds [] = [] := by simp [visibleValues]

@[simp] theorem visibleValues_cons (d : FieldDecl) (ds : List FieldDecl) (v : Value) (vs : List Value) :
    visibleValues (d :: ds) (v :: vs) = if d.visible then v :: visibleValues ds vs else visibleValues ds vs := by
  cases hd : d.visible <;> simp [visibleValues, hd]

/-- looking values up by position pairs the visible fields with the values of the visible fields -/
theorem filterMap_visibleFrom (i : Nat) (done : List Value) (ds : List FieldDecl) (vs : List Value) :
    ((visibleFrom i done.length ds).filterMap fun f => ((done ++ vs)[f.position]?).map (f, ·)) =
      (visibleFrom i done.length ds).zip (visibleValues ds vs) := by
  induction ds generalizing i done vs with
  | nil => simp [visibleFrom]
  | cons d ds ih =>
    cases vs with
    | nil =>
      rw [visibleValues_nil, List.zip_nil_right, List.filterMap_eq_nil_iff]
      intro f hf
      have hlen := le_position_of_mem hf
      simp [List.getElem?_eq_none hlen]
    | cons v vs =>
      have hrest (j : Nat) := ih j (done ++ [v]) vs
      simp only [List.length_append, List.length_singleton, List.append_assoc, List.singleton_append] at hrest
      rw [visibleFrom, visibleValues_cons]
      split
      · rw [List.filterMap_cons_some (b := (⟨d.name, d.ty, d.tags, i, done.length⟩, v)) (by simp), hrest,
          List.zip_cons_cons]
      · exact hrest i

/-- the walk pairs the visible fields with their values in turn -/
theorem visibleWith_eq_zip (i p : Nat) (ds : List FieldDecl) (vs : List Value) :
    visibleWith i p ds vs = (visibleFrom i p ds).zip (visibleValues ds vs) := by
  induction ds generalizing i p vs with
  | nil => simp [visibleWith, visibleFrom]
  | cons d ds ih => cases vs with
    | nil => simp [visibleWith]
    | cons v vs =>
      rw [visibleWith, visibleFrom, visibleValues_cons, ih, ih]
      split <;> rfl

/-- nothing is dropped where the two lists are zipped -/
theorem length_visibleValues {ds : List FieldDecl} {vs : List Value} (hlen : ds.length = vs.length) (i p : Nat) :
    (visibleValues ds vs).length = (visibleFrom i p ds).length := by
  induction ds generalizing i p vs with
  | nil => simp [visibleValues, visibleFrom]
  | cons d ds ih => cases vs with
    | nil => simp at hlen
    | cons v vs =>
      have hlen : ds.length = vs.length := Nat.succ.inj hlen
      rw [visibleValues_cons, visibleFrom]
      split
      · rw [List.length_cons, List.length_cons, ih hlen]
      · exact ih hlen i (p + 1)

theorem map_fst_visibleWith {i p : Nat} {ds : List FieldDecl} {vs : List Value} (hlen : ds.length = vs.length) :
    (visibleWith i p ds vs).map Prod.fst = visibleFrom i p ds := by
  rw [visibleWith_eq_zip, List.map_fst_zip (Nat.le_of_eq (length_visibleValues hlen i p).symm)]

namespace Value

/-- what is known of the visible fields, zipped with their values -/
theorem fields?_record_eq_zip (S : Schema) (name : String) (vs : List Value) :
    (record name vs).fields? S = some ((S.visible name).zip (visibleValues (S.fields name) vs)) :=
  congrArg some (filterMap_visibleFrom 0 [] (S.fields name) vs)

theorem fields?_record (S : Schema) (name : String) (vs : List Value) :
    (record name vs).fields? S = some (visibleWith 0 0 (S.fields name) vs) := by
  rw [fields?_record_eq_zip, visibleWith_eq_zip, Schema.visible]

/-! ## Allocation of all visible fields -/

/-- no pointer on the chain of a visible field is nil -/
def VisibleSettled : List FieldDecl → List Value → Prop
  | d :: ds, v :: vs => (d.visible = true → v.IsSettled) ∧ VisibleSettled ds vs
  | _, _ => True

theorem allocateVisible_cons (S : Schema) (d : FieldDecl) (ds : List FieldDecl) (v : Value) (vs : List Value) :
    (allocateVisible S (d :: ds) (v :: vs)).value =
      (if d.visible then (v.allocate S).value else v) :: (allocateVisible S ds vs).value := by
  rw [allocateVisible]
  split <;> simp

theorem allocateVisible_of_no_values (S : Schema) (ds : List FieldDecl) : (allocateVisible S ds []).value = [] := by
  cases ds <;> rfl

@[simp] theorem length_allocateVisible (S : Schema) (ds : List FieldDecl) (vs : List Value) :
    (allocateVisible S ds vs).value.length = vs.length := by
  induction ds generalizing vs with
  | nil => rfl
  | cons d ds ih => cases vs with
    | nil => rfl
    | cons v vs => simp [allocateVisible_cons, ih]

theorem getElem?_allocateVisible {S : Schema} {ds : List FieldDecl} {vs : List Value} {p : Nat} {d : FieldDecl}
    {v : Value} (hd : ds[p]? = some d) (hv : vs[p]? = some v) :
    (allocateVisible S ds vs).value[p]? = some (if d.visible then (v.allocate S).value else v) := by
  induction ds generalizing p vs with
  | nil => simp at hd
  | cons d' ds ih => cases vs with
    | nil => simp at hv
    | cons v' vs =>
      rw [allocateVisible_cons]
      cases p with
      | zero =>
        obtain rfl : d' = d := by simpa using hd
        obtain rfl : v' = v := by simpa using hv
        rfl
      | succ p => exact ih (by simpa using hd) (by simpa using hv)

theorem visibleSettled_allocateVisible (S : Schema) (ds : List FieldDecl) (vs : List Value) :
    VisibleSettled ds (allocateVisible S ds vs).value := by
  induction ds generalizing vs with
  | nil => trivial
  | cons d ds ih => cases vs with
    | nil => trivial
    | cons v vs =>
      rw [allocateVisible_cons]
      refine ⟨fun hd => ?_, ih vs⟩
      rw [if_pos hd]
      exact isSettled_allocate S v

theorem allocateVisible_of_settled (S : Schema) {ds : List FieldDecl} {vs : List Value} (h : VisibleSettled ds vs) :
    (allocateVisible S ds vs).value = vs := by
  induction ds generalizing vs with
  | nil => rfl
  | cons d ds ih => cases vs with
    | nil => rfl
    | cons v vs =>
      rw [allocateVisible_cons, ih h.2]
      by_cases hd : d.visible
      · rw [if_pos hd, (h.1 hd).allocate S]
        rfl
      · rw [if_neg hd]

theorem visibleSettled_iff {ds : List FieldDecl} {vs : List Value} :
    VisibleSettled ds vs ↔
      ∀ (p : Nat) (d : FieldDecl) (v : Value), ds[p]? = some d → vs[p]? = some v → d.visible = true → v.IsSettled := by
  induction ds generalizing vs with
  | nil => simp [VisibleSettled]
  | cons d ds ih => cases vs with
    | nil => simp [VisibleSettled]
    | cons v vs =>
      rw [VisibleSettled, ih]
      constructor
      · rintro ⟨hv, hvs⟩ p d' v' hd' hv'
        cases p with
        | zero =>
          cases hd'
          cases hv'
          exact hv
        | succ p => exact hvs p d' v' hd' hv'
      · intro h
        exact ⟨h 0 d v rfl rfl, fun p => h (p + 1)⟩

theorem mem_visibleWith {i p : Nat} {ds : List FieldDecl} {vs : List Value} {f : VisibleField} {x : Value}
    (h : (f, x) ∈ visibleWith i p ds vs) : x ∈ vs := by
  rw [visibleWith_eq_zip] at h
  obtain ⟨⟨d, y⟩, hmem, rfl⟩ := List.mem_map.1 (List.of_mem_zip h).2
  exact (List.of_mem_zip (List.mem_filter.1 hmem).1).2

theorem isSettled_of_mem_visibleWith {i p : Nat} {ds : List FieldDecl} {vs : List Value} {f : VisibleField} {x : Value}
    (h : (f, x) ∈ visibleWith i p ds vs) (hs : VisibleSettled ds vs) : x.IsSettled := by
  fun_induction visibleWith i p ds vs with
  | case1 i p d ds v vs hd ih =>
    rcases List.mem_cons.1 h with h | h
    · cases h
      exact hs.1 hd
    · exact ih h hs.2
  | case2 i p d ds v vs hd ih => exact ih h hs.2
  | case3 => simp at h

/-! ## Typing -/

theorem map_ty_allocateVisible (S : Schema) (ds : List FieldDecl) (vs : List Value) :
    (allocateVisible S ds vs).value.map ty = vs.map ty := by
  induction ds generalizing vs with
  | nil => rfl
  | cons d ds ih => cases vs with
    | nil => rfl
    | cons v vs =>
      rw [allocateVisible_cons, List.map_cons, List.map_cons, ih]
      split <;> simp

theorem wellTyped_allocateVisible {S : Schema} {ds : List FieldDecl} {vs : List Value} (h : ∀ v ∈ vs, WellTyped S v) :
    ∀ v ∈ (allocateVisible S ds vs).value, WellTyped S v := by
  induction ds generalizing vs with
  | nil => exact h
  | cons d ds ih => cases vs with
    | nil => simp [allocateVisible_of_no_values]
    | cons v vs =>
      rw [allocateVisible_cons, List.forall_mem_cons]
      refine ⟨?_, ih fun x hx => h x (List.mem_cons_of_mem _ hx)⟩
      have hv : WellTyped S v := h v List.mem_cons_self
      split
      · exact wellTyped_allocate hv
      · exact hv

end Value

/-! ## Wrappers on fields -/

namespace Wrapper

/-- what is known of the visible fields, zipped with the wrappers on their values -/
theorem fieldsOf_record (S : Schema) (name : String) (vs : List Value) (wrap : Value → Wrapper) :
    fieldsOf S (.record name vs) wrap =
      List.zipWith (fun f u => ⟨f, none, u⟩) (S.visible name) ((visibleValues (S.fields name) vs).map wrap) := by
  rw [fieldsOf, Value.fields?_record_eq_zip, Option.getD_some, List.map_zip_eq_zipWith, List.zipWith_map_right]
  rfl

theorem fieldsOf_record_eq_map (S : Schema) (name : String) (vs : List Value) (wrap : Value → Wrapper) :
    fieldsOf S (.record name vs) wrap = (visibleWith 0 0 (S.fields name) vs).map fun (f, x) => ⟨f, none, wrap x⟩ := by
  rw [fieldsOf_record, visibleWith_eq_zip, List.map_zip_eq_zipWith, List.zipWith_map_right]
  rfl

/-- the wrappers on the fields that take part, among some declarations and settled values -/
def fieldsWith (S : Schema) (tag : Option String) (i p : Nat) (ds : List FieldDecl) (vs : List Value) : List Field :=
  (visibleWith i p ds vs).filterMap fun (f, x) => match tag with
    | none => some ⟨f, none, settled S x⟩
    | some key => (f.tags.lookup key).map fun value => ⟨f, some value, settled S x⟩

theorem tagged_map (S : Schema) (key : String) (l : List (VisibleField × Value)) :
    tagged key (l.map fun (f, x) => ⟨f, none, settled S x⟩) =
      l.filterMap fun (f, x) => (f.tags.lookup key).map fun value => ⟨f, some value, settled S x⟩ := by
  rw [tagged, List.filterMap_map]
  rfl

/-- a field's wrapper is on a value of the record, whose pointers are allocated -/
theorem wrapper_of_mem_fieldsWith {S : Schema} {tag : Option String} {i p : Nat} {ds : List FieldDecl}
    {vs : List Value} {f : Field} (h : f ∈ fieldsWith S tag i p ds vs) :
    ∃ x, (f.decl, x) ∈ visibleWith i p ds vs ∧ f.wrapper = settled S x := by
  obtain ⟨⟨g, x⟩, hmem, hf⟩ := List.mem_filterMap.1 h
  refine ⟨x, ?_⟩
  cases tag with
  | none =>
    cases hf
    exact ⟨hmem, rfl⟩
  | some key =>
    obtain ⟨value, -, rfl⟩ := Option.map_eq_some_iff.1 hf
    exact ⟨hmem, rfl⟩

end Wrapper

namespace Holds

variable {S : Schema} {st : Value} {w : Wrapper} {name : String} {vs : List Value}

theorem isRecord (h : Holds S st w) (hc : st.chainEnd = .record name vs) : w.descriptor.isRecord = true := by
  rw [h.isRecord_iff]
  exact ⟨name, h.resolved_of_chainEnd hc⟩

/-- enumeration wraps the fields of the record with its pointers allocated, and leaves the record so -/
theorem fieldsFor (h : Holds S st w) (hc : st.chainEnd = .record name vs) (tag : Option String) :
    let ws := (Value.allocateVisible S (S.fields name) vs).value
    (w.fieldsFor S tag).value = (Wrapper.fieldsWith S tag 0 0 (S.fields name) ws, w.put (.record name ws)) := by
  intro ws
  have hfields : (w.fields S).value =
      ((visibleWith 0 0 (S.fields name) ws).map fun (f, x) => ⟨f, none, .settled S x⟩, w.put (.record name ws)) := by
    rw [Wrapper.fields, h.isRecord hc, h.target, hc]
    simp [Wrapper.fieldsOf_record_eq_map, Value.allocateFields, ws]
  cases tag with
  | none =>
    rw [Wrapper.fieldsFor, hfields, Wrapper.fieldsWith]
    simp
  | some key =>
    rw [Wrapper.fieldsFor, Wrapper.taggedFields, Wrapper.fieldsWith, ← Wrapper.tagged_map]
    simp [hfields]

theorem fieldsFor_of_not_isRecord (h : w.descriptor.isRecord = false) (S : Schema) (tag : Option String) :
    (w.fieldsFor S tag).value = ([], w) := by
  cases tag <;> simp [Wrapper.fieldsFor, Wrapper.taggedFields, Wrapper.fields, h, Wrapper.tagged]

end Holds

end DynAssign
