/-
The order of allocation.

Wherever a wrapper is built, enumerated or descended from, nil pointers may be allocated, and a fresh value has nil
pointers of its own. `Allocates S v v'` says that v' is v with some nil pointers allocated, at any depth below pointers
and visible fields, and is v otherwise: scalars, lists, maps, what a dynamic slot holds and hidden fields are the same.
It is a partial order, and a later value has the type and the settled chains of an earlier one.

A descent along a path follows what `Leads` says of the value: the path leads off, or to a value with a settled chain.
Main statements:
- `Value.leads_descend`: a descent allocates, and then the path leads to what was found;
- `Leads.descend`: where a path leads already, a descent changes nothing;
- `Leads.mono`: a path leads on to the same place, or off at the same place, in every later value;
- `Leads.putAt`: what was allocated in the place that a path leads to can be written back there.
-/
import DynAssign.Proofs.Paths

namespace DynAssign

/-- the second value is the first with some nil pointers allocated -/
inductive Allocates (S : Schema) : Value → Value → Prop where
  | refl (v : Value) : Allocates S v v
  /-- a nil pointer was given a fresh zero value, in which more may be allocated -/
  | nil {t : Ty} {v : Value} (h : Allocates S (.zero S t) v) : Allocates S (.nil t) (.ptr v)
  | ptr {v v' : Value} (h : Allocates S v v') : Allocates S (.ptr v) (.ptr v')
  | box {v v' : Value} (h : Allocates S v v') : Allocates S (.box v) (.box v')
  /-- something was allocated in fields of a record, but in no hidden one -/
  | record {name : String} {vs vs' : List Value} (hlen : vs'.length = vs.length)
    (hhidden : ∀ (p : Nat) (d : FieldDecl), (S.fields name)[p]? = some d → d.visible = false → vs'[p]? = vs[p]?)
    (hvs : ∀ (p : Nat) (v v' : Value), vs[p]? = some v → vs'[p]? = some v' → Allocates S v v') :
    Allocates S (.record name vs) (.record name vs')

theorem exists_getElem?_of_length_eq {α β : Type} {xs : List α} {ys : List β} {p : Nat} {x : α}
    (hlen : ys.length = xs.length) (hx : xs[p]? = some x) : ∃ y, ys[p]? = some y := by
  obtain ⟨hlt, -⟩ := List.getElem?_eq_some_iff.1 hx
  exact ⟨_, List.getElem?_eq_getElem (hlen ▸ hlt)⟩

namespace Allocates

variable {S : Schema} {v v' v'' : Value} {name : String} {vs : List Value}

/-! ## What comes after a value -/

theorem of_ptr (h : Allocates S (.ptr v) v') : ∃ x, v' = .ptr x ∧ Allocates S v x := by
  cases h with
  | refl => exact ⟨v, rfl, .refl v⟩
  | ptr h => exact ⟨_, rfl, h⟩

theorem of_box (h : Allocates S (.box v) v') : ∃ x, v' = .box x ∧ Allocates S v x := by
  cases h with
  | refl => exact ⟨v, rfl, .refl v⟩
  | box h => exact ⟨_, rfl, h⟩

theorem of_record (h : Allocates S (.record name vs) v') :
    ∃ vs', v' = .record name vs' ∧ vs'.length = vs.length ∧
      (∀ (p : Nat) (d : FieldDecl), (S.fields name)[p]? = some d → d.visible = false → vs'[p]? = vs[p]?) ∧
      ∀ (p : Nat) (x x' : Value), vs[p]? = some x → vs'[p]? = some x' → Allocates S x x' := by
  cases h with
  | refl =>
    refine ⟨vs, rfl, rfl, fun _ _ _ _ => rfl, ?_⟩
    intro p x x' hx hx'
    obtain rfl : x = x' := Option.some.inj (hx.symm.trans hx')
    exact .refl x
  | record hlen hhidden hvs => exact ⟨_, rfl, hlen, hhidden, hvs⟩

theorem ty_eq (h : Allocates S v v') : v'.ty = v.ty := by
  induction h with
  | refl => rfl
  | nil _ ih => simp [Value.ty, ih]
  | ptr _ ih => simp [Value.ty, ih]
  | box _ ih => simp [Value.ty, ih]
  | record => rfl

/-- what comes after the end of a settled chain is no pointer either -/
theorem isPointer (h : Allocates S v v') (hv : v.isPointer = false) : v'.isPointer = false := by
  rw [Value.isPointer, h.ty_eq]
  exact hv

theorem wellTyped (h : Allocates S v v') (hv : WellTyped S v) : WellTyped S v' := by
  induction h with
  | refl => exact hv
  | nil _ ih => exact .ptr (ih (Value.wellTyped_zero S _))
  | ptr _ ih => exact .ptr (ih (WellTyped.ptr_iff.1 hv))
  | box _ ih => exact .box (ih (WellTyped.box_iff.1 hv))
  | @record name vs vs' hlen hhidden hvs ih =>
    obtain ⟨htys, hall⟩ := WellTyped.record_iff.1 hv
    refine .record ?_ ?_
    · rw [← htys]
      refine List.ext_getElem (by simp [hlen]) ?_
      intro p hp hp'
      rw [List.getElem_map, List.getElem_map]
      exact (hvs p _ _ (List.getElem?_eq_getElem _) (List.getElem?_eq_getElem _)).ty_eq
    · intro x' hx'
      obtain ⟨p, hp⟩ := List.mem_iff_getElem?.1 hx'
      obtain ⟨x, hx⟩ := exists_getElem?_of_length_eq hlen.symm hp
      exact ih p x x' hx hp (hall x (List.mem_of_getElem? hx))

/-! ## A partial order -/

theorem trans (h : Allocates S v v') (h' : Allocates S v' v'') : Allocates S v v'' := by
  induction h generalizing v'' with
  | refl => exact h'
  | nil _ ih =>
    obtain ⟨x, rfl, hx⟩ := h'.of_ptr
    exact .nil (ih hx)
  | ptr _ ih =>
    obtain ⟨x, rfl, hx⟩ := h'.of_ptr
    exact .ptr (ih hx)
  | box _ ih =>
    obtain ⟨x, rfl, hx⟩ := h'.of_box
    exact .box (ih hx)
  | @record name vs vs' hlen hhidden hvs ih =>
    obtain ⟨vs'', rfl, hlen', hhidden', hvs'⟩ := h'.of_record
    refine .record (hlen'.trans hlen) (fun p d hd hv => (hhidden' p d hd hv).trans (hhidden p d hd hv)) ?_
    intro p x x'' hx hx''
    obtain ⟨x', hx'⟩ := exists_getElem?_of_length_eq hlen hx
    exact ih p x x' hx hx' (hvs' p x' x'' hx' hx'')

theorem antisymm (h : Allocates S v v') (h' : Allocates S v' v) : v = v' := by
  induction h with
  | refl => rfl
  | nil =>
    obtain ⟨x, hx, -⟩ := h'.of_ptr
    cases hx
  | ptr _ ih =>
    obtain ⟨x, hx, hle⟩ := h'.of_ptr
    cases hx
    rw [ih hle]
  | box _ ih =>
    obtain ⟨x, hx, hle⟩ := h'.of_box
    cases hx
    rw [ih hle]
  | @record name vs vs' hlen hhidden hvs ih =>
    obtain ⟨ws, hws, -, -, hback⟩ := h'.of_record
    cases hws
    congr 1
    refine List.ext_getElem hlen.symm ?_
    intro p hp hp'
    have hx : vs[p]? = some vs[p] := List.getElem?_eq_getElem hp
    have hx' : vs'[p]? = some vs'[p] := List.getElem?_eq_getElem hp'
    exact ih p _ _ hx hx' (hback p _ _ hx' hx)

/-! ## Chains -/

theorem fresh (S : Schema) (t : Ty) : Allocates S (.zero S t) (.fresh S t) := by
  induction t with
  | option t ih =>
    rw [Value.zero]
    exact .nil ih
  | box t ih =>
    rw [Value.zero]
    exact .box ih
  | _ => exact .refl _

theorem allocate (S : Schema) (v : Value) : Allocates S v (v.allocate S).value := by
  fun_induction Value.allocate S v with
  | case1 t => exact .nil (fresh S t)
  | case2 v ih => exact .ptr ih
  | case3 v ih => exact .box ih
  | case4 v => exact .refl v

/-- a settled chain stays settled, and its end is allocated in -/
theorem chainEnd (h : Allocates S v v') (hv : v.IsSettled) : v'.IsSettled ∧ Allocates S v.chainEnd v'.chainEnd := by
  induction h with
  | refl v => exact ⟨hv, .refl _⟩
  | nil => cases hv
  | ptr _ ih => exact ih hv
  | box _ ih => exact ih hv
  | record hlen hhidden hvs => exact ⟨rfl, .record hlen hhidden hvs⟩

theorem setChainEnd {x : Value} (hv : v.IsSettled) (h : Allocates S v.chainEnd x) :
    Allocates S v (v.setChainEnd x) := by
  unfold Value.IsSettled at hv
  fun_induction Value.chainEnd v with
  | case1 v ih => exact .ptr (ih hv h)
  | case2 v ih => exact .box (ih hv h)
  | case3 v hptr hbox =>
    cases v with
    | ptr v => exact absurd rfl (hptr v)
    | box v => exact absurd rfl (hbox v)
    | nil t => cases hv
    | _ => exact h

/-- what was written at the end of a chain is at the end of it later on, and only allocated in -/
theorem of_setChainEnd {x : Value} (hx : x.isPointer = false) (h : Allocates S (v.setChainEnd x) v') :
    Allocates S x v'.chainEnd := by
  have hend := (h.chainEnd (Value.isSettled_setChainEnd v hx)).2
  rwa [Value.chainEnd_setChainEnd v hx] at hend

/-! ## Fields -/

theorem set_field {p : Nat} {d : FieldDecl} {x z : Value} (hd : (S.fields name)[p]? = some d)
    (hvisible : d.visible = true) (hx : vs[p]? = some x) (h : Allocates S x z) :
    Allocates S (.record name vs) (.record name (vs.set p z)) := by
  refine .record List.length_set ?_ ?_
  · intro q d' hd' hhidden
    have hne : p ≠ q := by
      rintro rfl
      obtain rfl : d = d' := Option.some.inj (hd.symm.trans hd')
      rw [hvisible] at hhidden
      cases hhidden
    rw [List.getElem?_set_ne hne]
  · intro q y y' hy hy'
    by_cases hpq : p = q
    · subst hpq
      obtain rfl : x = y := Option.some.inj (hx.symm.trans hy)
      rw [List.getElem?_set_self (List.getElem?_eq_some_iff.1 hx).1] at hy'
      obtain rfl := Option.some.inj hy'
      exact h
    · rw [List.getElem?_set_ne hpq, hy] at hy'
      obtain rfl := Option.some.inj hy'
      exact .refl y

theorem allocateVisible (hlen : (S.fields name).length = vs.length) :
    Allocates S (.record name vs) (.record name (Value.allocateVisible S (S.fields name) vs).value) := by
  refine .record (Value.length_allocateVisible S _ vs) ?_ ?_
  · intro p d hd hhidden
    obtain ⟨v, hv⟩ := exists_getElem?_of_length_eq hlen.symm hd
    rw [Value.getElem?_allocateVisible hd hv, hv, hhidden]
    rfl
  · intro p v v' hv hv'
    obtain ⟨d, hd⟩ := exists_getElem?_of_length_eq hlen hv
    rw [Value.getElem?_allocateVisible hd hv, Option.some.injEq] at hv'
    rw [← hv']
    split
    · exact .allocate S v
    · exact .refl v

/-- a field found by index is found in every later value, and in that only allocated -/
theorem field? {i : Nat} {f : VisibleField} {x : Value} (h : Allocates S v v') (hv : WellTyped S v)
    (hf : v.field? S i = some (f, x)) : ∃ x', v'.field? S i = some (f, x') ∧ Allocates S x x' := by
  obtain ⟨name, vs, rfl⟩ := Value.eq_record_of_field? hf
  obtain ⟨vs', rfl, hlen, -, hvs⟩ := h.of_record
  obtain ⟨hdecl, hx⟩ := (Value.field?_iff hv.length_fields).1 hf
  obtain ⟨x', hx'⟩ := exists_getElem?_of_length_eq hlen hx
  exact ⟨x', (Value.field?_iff (hv.length_fields.trans hlen.symm)).2 ⟨hdecl, hx'⟩, hvs _ _ _ hx hx'⟩

theorem field?_eq_none {i : Nat} (h : Allocates S v v') (hv : WellTyped S v) (hf : v.field? S i = none) :
    v'.field? S i = none := by
  cases hx' : v'.field? S i with
  | none => rfl
  | some fx =>
    obtain ⟨f, x'⟩ := fx
    obtain ⟨name, vs', rfl⟩ := Value.eq_record_of_field? hx'
    obtain ⟨vs, rfl⟩ := Value.eq_record_of_ty h.ty_eq.symm
    obtain ⟨ws, hws, hlen, -, -⟩ := h.of_record
    cases hws
    obtain ⟨hdecl, hp⟩ := (Value.field?_iff (hv.length_fields.trans hlen.symm)).1 hx'
    obtain ⟨x, hx⟩ := exists_getElem?_of_length_eq hlen.symm hp
    have hfound := (Value.field?_iff hv.length_fields).2 ⟨hdecl, hx⟩
    rw [hf] at hfound
    cases hfound

theorem setPosition {i : Nat} {f : VisibleField} {x z : Value} (hf : v.field? S i = some (f, x))
    (h : Allocates S x z) : Allocates S v (v.setPosition f.position z) := by
  obtain ⟨name, vs, d, rfl, hd, hvisible, hx⟩ := Value.exists_decl_of_field? hf
  exact .set_field hd hvisible hx h

end Allocates

/-! ## Paths -/

/-- A path of field indexes leads through fields whose chains are settled: to a value whose chain is settled, or off at
an index that no field has. -/
inductive Leads (S : Schema) : Value → Nat → List Nat → Option Value → Prop where
  | off {v : Value} {i : Nat} (path : List Nat) (h : v.field? S i = none) : Leads S v i path none
  | last {v x : Value} {i : Nat} {f : VisibleField} (h : v.field? S i = some (f, x)) (hx : x.IsSettled) :
    Leads S v i [] (some x)
  | next {v x : Value} {i j : Nat} {path : List Nat} {f : VisibleField} {r : Option Value}
    (h : v.field? S i = some (f, x)) (hx : x.IsSettled) (hrest : Leads S x.chainEnd j path r) :
    Leads S v i (j :: path) r

namespace Value

variable {S : Schema} {v x : Value} {i : Nat} {f : VisibleField}

theorem setPosition_field? (h : v.field? S i = some (f, x)) : v.setPosition f.position x = v := by
  obtain ⟨name, vs, d, rfl, -, -, hx⟩ := exists_decl_of_field? h
  obtain ⟨hlt, rfl⟩ := List.getElem?_eq_some_iff.1 hx
  rw [setPosition, List.set_getElem_self]

/-- **A descent allocates.** Afterwards its path leads to what was found, or off. -/
theorem leads_descend (hv : WellTyped S v) (i : Nat) (path : List Nat) :
    Allocates S v (v.descend S i path).value.2 ∧
      Leads S (v.descend S i path).value.2 i path (v.descend S i path).value.1.toOption := by
  induction path generalizing v i with
  | nil =>
    cases hf : v.field? S i with
    | none =>
      obtain ⟨hsame, e, he⟩ := descend_of_no_field hf []
      rw [hsame, he]
      exact ⟨.refl v, .off [] hf⟩
    | some fx =>
      obtain ⟨f, x⟩ := fx
      rw [descend_last hf]
      exact ⟨.setPosition hf (.allocate S x), .last (field?_setPosition hv hf _) (isSettled_allocate S x)⟩
  | cons j path ih =>
    cases hf : v.field? S i with
    | none =>
      obtain ⟨hsame, e, he⟩ := descend_of_no_field hf (j :: path)
      rw [hsame, he]
      exact ⟨.refl v, .off _ hf⟩
    | some fx =>
      obtain ⟨f, x⟩ := fx
      have hsettled := isSettled_allocate S x
      have hend := wellTyped_chainEnd (wellTyped_allocate (wellTyped_of_field? hv hf).1)
      obtain ⟨hinner, hleads⟩ := ih hend j
      have hpointer := isPointer_of_ty (hinner.ty_eq.trans hsettled.ty_chainEnd)
      rw [descend_next hf]
      refine ⟨.setPosition hf ((Allocates.allocate S x).trans (.setChainEnd hsettled hinner)), ?_⟩
      refine .next (field?_setPosition hv hf _) (isSettled_setChainEnd _ hpointer) ?_
      rw [chainEnd_setChainEnd _ hpointer]
      exact hleads

end Value

namespace Leads

variable {S : Schema} {v v' x z : Value} {i : Nat} {path : List Nat} {r : Option Value}

theorem isSettled (h : Leads S v i path (some x)) : x.IsSettled := by
  generalize hr : some x = r at h
  induction h with
  | off => cases hr
  | last h hx =>
    cases hr
    exact hx
  | next h hx hrest ih => exact ih hr

/-- where a path leads already, a descent changes nothing -/
theorem descend (h : Leads S v i path r) :
    (v.descend S i path).value.2 = v ∧ (v.descend S i path).value.1.toOption = r := by
  induction h with
  | off path h =>
    obtain ⟨hsame, e, he⟩ := Value.descend_of_no_field h path
    rw [hsame, he]
    exact ⟨rfl, rfl⟩
  | last h hx =>
    rw [Value.descend_last h, hx.allocate S]
    exact ⟨Value.setPosition_field? h, rfl⟩
  | next h hx hrest ih =>
    rw [Value.descend_next h, hx.allocate S]
    simp only [Traced.value_pure, ih.1, Value.setChainEnd_chainEnd hx]
    exact ⟨Value.setPosition_field? h, ih.2⟩

/-- **A path that leads somewhere leads there in every later value**, and what it leads to is only allocated in. -/
theorem mono (h : Leads S v i path r) (hv : WellTyped S v) (hle : Allocates S v v') :
    ∃ r', Leads S v' i path r' ∧ Option.Rel (Allocates S) r r' := by
  induction h generalizing v' with
  | off path h => exact ⟨none, .off path (hle.field?_eq_none hv h), .none⟩
  | last h hx =>
    obtain ⟨x', h', hle'⟩ := hle.field? hv h
    exact ⟨some x', .last h' (hle'.chainEnd hx).1, .some hle'⟩
  | next h hx hrest ih =>
    obtain ⟨x', h', hle'⟩ := hle.field? hv h
    obtain ⟨hx', hend⟩ := hle'.chainEnd hx
    obtain ⟨r', hr', hrel⟩ := ih (Value.wellTyped_chainEnd (Value.wellTyped_of_field? hv h).1) hend
    exact ⟨r', .next h' hx' hr', hrel⟩

theorem putAt_self (h : Leads S v i path (some x)) : v.putAt S x (i :: path) = v := by
  generalize hr : some x = r at h
  induction h with
  | off => cases hr
  | last h hx =>
    cases hr
    rw [Value.putAt, h]
    exact Value.setPosition_field? h
  | next h hx hrest ih =>
    rw [Value.putAt, h]
    · simp only [ih hr, Value.setChainEnd_chainEnd hx]
      exact Value.setPosition_field? h
    · simp

/-- **What was allocated in the place that a path leads to, written back there.** -/
theorem putAt (h : Leads S v i path (some x)) (hv : WellTyped S v) (hle : Allocates S x z) :
    Allocates S v (v.putAt S z (i :: path)) ∧ Leads S (v.putAt S z (i :: path)) i path (some z) := by
  generalize hr : some x = r at h
  induction h with
  | off => cases hr
  | last h hx =>
    cases hr
    rw [Value.putAt, h]
    exact ⟨.setPosition h hle, .last (Value.field?_setPosition hv h z) (hle.chainEnd hx).1⟩
  | next h hx hrest ih =>
    obtain ⟨hinner, hleads⟩ := ih (Value.wellTyped_chainEnd (Value.wellTyped_of_field? hv h).1) hr
    have hpointer := hinner.isPointer hx
    rw [Value.putAt, h]
    · refine ⟨.setPosition h (.setChainEnd hx hinner), ?_⟩
      refine .next (Value.field?_setPosition hv h _) (Value.isSettled_setChainEnd _ hpointer) ?_
      rw [Value.chainEnd_setChainEnd _ hpointer]
      exact hleads
    · simp

end Leads

end DynAssign
