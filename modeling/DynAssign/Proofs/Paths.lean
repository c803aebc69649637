/-
Types along paths of field indexes.

A record's visible fields are found by index, and written by position among all declared fields. `Value.field?_iff`
ties the two together, so that a field found by index is the one that is written (`Value.field?_setPosition`), and is
of its declared type (`Value.wellTyped_of_field?`).

`Schema.typeAt?` is the type declared at the end of a path. Main statements, by induction on the path:
- `Value.descend_found`: what is found along a path is well typed and of the type declared there;
- `Value.wellTyped_descend`, `Value.wellTyped_putAt_descend`: a record stays well typed while the pointers on the path
  are allocated, and when what was found at its end is replaced by a value of the same type.
-/
import DynAssign.Proofs.Fields

namespace DynAssign

/-! ## Fields by index -/

theorem exists_decl_of_mem_visibleWith {i p : Nat} {ds : List FieldDecl} {vs : List Value} {f : VisibleField}
    {x : Value} (h : (f, x) ∈ visibleWith i p ds vs) :
    ∃ k d, f.position = p + k ∧ ds[k]? = some d ∧ vs[k]? = some x ∧ d.visible = true ∧ d.ty = f.ty := by
  fun_induction visibleWith i p ds vs with
  | case1 i p d ds v vs hd ih =>
    rcases List.mem_cons.1 h with h | h
    · cases h
      exact ⟨0, d, rfl, rfl, rfl, hd, rfl⟩
    · obtain ⟨k, d', hp, hd', hx, hrest⟩ := ih h
      exact ⟨k + 1, d', by omega, hd', hx, hrest⟩
  | case2 i p d ds v vs hd ih =>
    obtain ⟨k, d', hp, hd', hx, hrest⟩ := ih h
    exact ⟨k + 1, d', by omega, hd', hx, hrest⟩
  | case3 => simp at h

namespace Value

variable {S : Schema} {name : String} {vs : List Value} {i : Nat} {f : VisibleField} {v x z : Value}

/-- the field of an index, in a record with a value for each declared field -/
theorem field?_iff (hlen : (S.fields name).length = vs.length) :
    (record name vs).field? S i = some (f, x) ↔ (S.visible name)[i]? = some f ∧ vs[f.position]? = some x := by
  have hfst : ((visibleWith 0 0 (S.fields name) vs).map Prod.fst)[i]? = (S.visible name)[i]? := by
    rw [map_fst_visibleWith hlen, Schema.visible]
  have hat {g : VisibleField} {y : Value} (h : (visibleWith 0 0 (S.fields name) vs)[i]? = some (g, y)) :
      vs[g.position]? = some y := by
    obtain ⟨k, d, hp, -, hy, -⟩ := exists_decl_of_mem_visibleWith (List.mem_of_getElem? h)
    rwa [hp, Nat.zero_add]
  rw [field?, fields?_record, Option.bind_some]
  rw [List.getElem?_map] at hfst
  constructor
  · intro h
    rw [h] at hfst
    exact ⟨hfst.symm, hat h⟩
  · rintro ⟨hf, hx⟩
    rw [hf] at hfst
    obtain ⟨⟨g, y⟩, hget, hg⟩ := Option.map_eq_some_iff.1 hfst
    cases hg
    obtain rfl : y = x := Option.some.inj ((hat hget).symm.trans hx)
    exact hget

theorem eq_record_of_field? (h : v.field? S i = some (f, x)) : ∃ name vs, v = record name vs := by
  cases v with
  | record name vs => exact ⟨name, vs, rfl⟩
  | _ => simp [field?, fields?] at h

/-- a field found by index is visible, and its declaration and its value stand at its position -/
theorem exists_decl_of_field? (h : v.field? S i = some (f, x)) :
    ∃ name vs d, v = record name vs ∧ (S.fields name)[f.position]? = some d ∧ d.visible = true ∧
      vs[f.position]? = some x := by
  obtain ⟨name, vs, rfl⟩ := eq_record_of_field? h
  rw [field?, fields?_record, Option.bind_some] at h
  obtain ⟨p, d, hp, hd, hx, hvisible, -⟩ := exists_decl_of_mem_visibleWith (List.mem_of_getElem? h)
  rw [Nat.zero_add] at hp
  exact ⟨name, vs, d, rfl, hp ▸ hd, hvisible, hp ▸ hx⟩

theorem wellTyped_of_mem_visibleWith (hv : WellTyped S (record name vs))
    (h : (f, x) ∈ visibleWith 0 0 (S.fields name) vs) : f ∈ S.visible name ∧ WellTyped S x ∧ x.ty = f.ty := by
  obtain ⟨p, d, -, hd, hx, -, hty⟩ := exists_decl_of_mem_visibleWith h
  refine ⟨?_, (WellTyped.record_iff.1 hv).2 x (List.mem_of_getElem? hx), (hv.ty_field hd hx).trans hty⟩
  rw [Schema.visible, ← map_fst_visibleWith hv.length_fields]
  exact List.mem_map_of_mem h

theorem wellTyped_of_field? (hv : WellTyped S v) (h : v.field? S i = some (f, x)) : WellTyped S x ∧ x.ty = f.ty := by
  obtain ⟨name, vs, rfl⟩ := eq_record_of_field? h
  rw [field?, fields?_record, Option.bind_some] at h
  exact (wellTyped_of_mem_visibleWith hv (List.mem_of_getElem? h)).2

theorem wellTyped_setPosition (hv : WellTyped S v) (h : v.field? S i = some (f, x)) (hz : WellTyped S z)
    (hty : z.ty = x.ty) : WellTyped S (v.setPosition f.position z) := by
  obtain ⟨name, vs, rfl⟩ := eq_record_of_field? h
  exact hv.set_field ((field?_iff hv.length_fields).1 h).2 hz hty

/-- the field that is written is the one that was found -/
theorem field?_setPosition (hv : WellTyped S v) (h : v.field? S i = some (f, x)) (z : Value) :
    (v.setPosition f.position z).field? S i = some (f, z) := by
  obtain ⟨name, vs, rfl⟩ := eq_record_of_field? h
  obtain ⟨hf, hx⟩ := (field?_iff hv.length_fields).1 h
  have hlt : f.position < vs.length := (List.getElem?_eq_some_iff.1 hx).1
  refine (field?_iff ?_).2 ⟨hf, ?_⟩
  · rw [List.length_set, hv.length_fields]
  · rw [List.getElem?_set_self hlt]

end Value

/-! ## Paths -/

/-- the type declared at the end of a path of field indexes, none if the path leads nowhere -/
def Schema.typeAt? (S : Schema) : Ty → List Nat → Option Ty
  | t, [] => some t
  | t, i :: path => match t.resolved with
    | .record name => (S.visible name)[i]?.bind fun f => S.typeAt? f.ty path
    | _ => none

namespace Value

variable {S : Schema} {i : Nat} {f : VisibleField} {v x z : Value}

theorem typeAt?_of_field? (hv : WellTyped S v) (h : v.field? S i = some (f, x)) (path : List Nat) :
    S.typeAt? v.ty (i :: path) = S.typeAt? x.ty path := by
  have hty := (wellTyped_of_field? hv h).2
  obtain ⟨name, vs, rfl⟩ := eq_record_of_field? h
  have hf := ((field?_iff hv.length_fields).1 h).1
  rw [hty, Schema.typeAt?]
  simp [ty, Ty.resolved, hf]

/-! ### The steps of a descent -/

theorem descend_of_no_field (h : v.field? S i = none) (path : List Nat) :
    (v.descend S i path).value.2 = v ∧ ∃ e, (v.descend S i path).value.1 = .error e := by
  unfold descend
  cases hfs : v.fields? S with
  | none => exact ⟨rfl, _, rfl⟩
  | some fs =>
    rw [field?, hfs, Option.bind_some] at h
    simp only [h]
    exact ⟨rfl, _, rfl⟩

theorem descend_cons (h : v.field? S i = some (f, x)) (j : Nat) (path : List Nat) :
    v.descend S i (j :: path) = (do
      let x ← x.allocate S
      let (r, y) ← x.chainEnd.descend S j path
      pure (r, v.setPosition f.position (x.setChainEnd y))) := by
  cases hfs : v.fields? S with
  | none => simp [field?, hfs] at h
  | some fs =>
    rw [field?, hfs, Option.bind_some] at h
    rw [descend, hfs]
    simp only [h]

theorem descend_single (h : v.field? S i = some (f, x)) :
    v.descend S i [] = (do
      let x ← x.allocate S
      pure (.ok x, v.setPosition f.position x)) := by
  cases hfs : v.fields? S with
  | none => simp [field?, hfs] at h
  | some fs =>
    rw [field?, hfs, Option.bind_some] at h
    rw [descend, hfs]
    simp only [h]

theorem descend_last (h : v.field? S i = some (f, x)) :
    let y := (x.allocate S).value
    (v.descend S i []).value = (.ok y, v.setPosition f.position y) := by
  rw [descend_single h]
  rfl

theorem descend_next (h : v.field? S i = some (f, x)) (j : Nat) (path : List Nat) :
    let y := (x.allocate S).value
    let inner := (y.chainEnd.descend S j path).value
    (v.descend S i (j :: path)).value = (inner.1, v.setPosition f.position (y.setChainEnd inner.2)) := by
  rw [descend_cons h]
  rfl

theorem exists_field?_of_descend {path : List Nat} (h : (v.descend S i path).value.1 = .ok x) :
    ∃ f y, v.field? S i = some (f, y) := by
  cases hf : v.field? S i with
  | none =>
    obtain ⟨-, e, he⟩ := descend_of_no_field hf path
    rw [he] at h
    cases h
  | some fy => exact ⟨fy.1, fy.2, rfl⟩

/-! ### Types along a descent -/

/-- what is found along a path is well typed and of the type declared there, and its pointers are allocated -/
theorem descend_found {path : List Nat} (hv : WellTyped S v) (h : (v.descend S i path).value.1 = .ok x) :
    WellTyped S x ∧ x.IsSettled ∧ S.typeAt? v.ty (i :: path) = some x.ty := by
  induction path generalizing v i with
  | nil =>
    obtain ⟨f, y, hf⟩ := exists_field?_of_descend h
    have hy := (wellTyped_of_field? hv hf).1
    rw [descend_last hf] at h
    cases h
    refine ⟨wellTyped_allocate hy, isSettled_allocate S y, ?_⟩
    rw [typeAt?_of_field? hv hf, Schema.typeAt?, ty_allocate]
  | cons j path ih =>
    obtain ⟨f, y, hf⟩ := exists_field?_of_descend h
    have hy := (wellTyped_of_field? hv hf).1
    rw [descend_next hf] at h
    obtain ⟨hx, hsettled, htype⟩ := ih (wellTyped_chainEnd (wellTyped_allocate hy)) h
    refine ⟨hx, hsettled, ?_⟩
    rw [ty_chainEnd_allocate] at htype
    rw [typeAt?_of_field? hv hf]
    simpa only [Schema.typeAt?, Ty.resolved_resolved] using htype

theorem wellTyped_descend (hv : WellTyped S v) (i : Nat) (path : List Nat) :
    WellTyped S (v.descend S i path).value.2 ∧ (v.descend S i path).value.2.ty = v.ty := by
  induction path generalizing v i with
  | nil =>
    cases hf : v.field? S i with
    | none =>
      rw [(descend_of_no_field hf []).1]
      exact ⟨hv, rfl⟩
    | some fx =>
      obtain ⟨f, x⟩ := fx
      rw [descend_last hf]
      have hx := (wellTyped_of_field? hv hf).1
      exact ⟨wellTyped_setPosition hv hf (wellTyped_allocate hx) (ty_allocate S x), ty_setPosition v _ _⟩
  | cons j path ih =>
    cases hf : v.field? S i with
    | none =>
      rw [(descend_of_no_field hf (j :: path)).1]
      exact ⟨hv, rfl⟩
    | some fx =>
      obtain ⟨f, x⟩ := fx
      have hx := (wellTyped_of_field? hv hf).1
      obtain ⟨hinner, hty⟩ := ih (wellTyped_chainEnd (wellTyped_allocate hx)) j
      have hset := ty_setChainEnd (hty.trans (isSettled_allocate S x).ty_chainEnd)
      rw [ty_allocate] at hset
      rw [descend_next hf]
      exact ⟨wellTyped_setPosition hv hf (wellTyped_setChainEnd _ hinner) hset, ty_setPosition v _ _⟩

/-- a value of the type that was found, written at the end of the path -/
theorem wellTyped_putAt_descend {path : List Nat} (hv : WellTyped S v) (h : (v.descend S i path).value.1 = .ok x)
    (hz : WellTyped S z) (hty : z.ty = x.ty) :
    WellTyped S ((v.descend S i path).value.2.putAt S z (i :: path)) ∧
      ((v.descend S i path).value.2.putAt S z (i :: path)).ty = v.ty := by
  induction path generalizing v i with
  | nil =>
    obtain ⟨hv', hty'⟩ := wellTyped_descend hv i []
    obtain ⟨f, y, hf⟩ := exists_field?_of_descend h
    rw [descend_last hf] at h hv' hty' ⊢
    cases h
    have hfound := field?_setPosition hv hf (y.allocate S).value
    rw [putAt, hfound]
    exact ⟨wellTyped_setPosition hv' hfound hz hty, (ty_setPosition _ _ _).trans hty'⟩
  | cons j path ih =>
    obtain ⟨hv', hty'⟩ := wellTyped_descend hv i (j :: path)
    obtain ⟨f, y, hf⟩ := exists_field?_of_descend h
    rw [descend_next hf] at h hv' hty' ⊢
    have hend := wellTyped_chainEnd (wellTyped_allocate (wellTyped_of_field? hv hf).1)
    obtain ⟨-, hdescendTy⟩ := wellTyped_descend hend j path
    obtain ⟨hinner, hinnerTy⟩ := ih hend h
    -- the storage of the field on the path, and what is at the end of its chain
    have hresolved := (isSettled_allocate S y).ty_chainEnd
    have hpointer := isPointer_of_ty (hdescendTy.trans hresolved)
    have hfound := field?_setPosition hv hf
      ((y.allocate S).value.setChainEnd ((y.allocate S).value.chainEnd.descend S j path).value.2)
    rw [putAt, hfound]
    · simp only [chainEnd_setChainEnd _ hpointer, setChainEnd_setChainEnd _ hpointer]
      refine ⟨wellTyped_setPosition hv' hfound (wellTyped_setChainEnd _ hinner) ?_, ?_⟩
      · rw [ty_setChainEnd (hinnerTy.trans hresolved), ty_setChainEnd (hdescendTy.trans hresolved)]
      · exact (ty_setPosition _ _ _).trans hty'
    · simp

end Value

/-! ## Wrappers along paths -/

namespace Holds

variable {S : Schema} {st : Value} {w : Wrapper}

theorem value_fieldAt (h : Holds S st w) (i : Nat) (path : List Nat) :
    (w.fieldAt S (i :: path)).value =
      ((st.chainEnd.descend S i path).value.1.map (.settled S), w.put (st.chainEnd.descend S i path).value.2) := by
  rw [Wrapper.fieldAt, h.isUnbound, h.target]
  rfl

/-- the wrapper on the field at a path is a wrapper on what the descent finds -/
theorem exists_of_fieldAt (h : Holds S st w) {path : List Nat} {sub : Wrapper}
    (hsub : (w.fieldAt S path).value.1 = .ok sub) :
    ∃ i rest x, path = i :: rest ∧ (st.chainEnd.descend S i rest).value.1 = .ok x ∧ sub = .settled S x := by
  cases path with
  | nil =>
    rw [Wrapper.fieldAt, h.isUnbound] at hsub
    cases hsub
  | cons i rest =>
    rw [h.value_fieldAt] at hsub
    cases hx : (st.chainEnd.descend S i rest).value.1 with
    | error e =>
      rw [hx] at hsub
      cases hsub
    | ok x =>
      rw [hx] at hsub
      cases hsub
      exact ⟨i, rest, x, rfl, hx, rfl⟩

end Holds

end DynAssign
