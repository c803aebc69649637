/-
Elements that are built first and appended as values.

An append does not store the value that it is given. It assigns the value to a fresh element and stores what is in there
then, and that can be something else: an element of a list is allocated if it is a nil pointer, a value without
structure is reset, and so is a dynamic slot behind a pointer.

`Value.Stable` says that a value comes out of this as it went in. Whatever was assigned to an element, with or without
success, is stable in the element (`Value.stable_assigned`), unless a pointer leads to a dynamic slot in the element
type (`Ty.hidesSlot`). The other operations change a record, which is copied as a whole, or go back to assignments. So
every step on an element keeps it stable (`Script.isStable_exec`), and every run (`Script.isStable_execAll`).

Main statement, on every writable list and every run on an element of it: `Wrapper.append_built`.
-/
import DynAssign.Proofs.Copies
import DynAssign.Proofs.Leaves
import DynAssign.Proofs.Steps

namespace DynAssign

/-! ## Element types -/

namespace Ty

/-- a pointer leads to a dynamic slot, at the top of a type or in a list -/
def hidesSlot : Ty → Bool
  | option t | box t => t.resolved = .any || t.hidesSlot
  | slice e => e.hidesSlot
  | _ => false

variable {t e : Ty}

theorem hidesSlot_elem (ht : t.hidesSlot = false) (he : t.resolved = .slice e) : e.hidesSlot = false := by
  induction t with
  | option t ih =>
    rw [hidesSlot, Bool.or_eq_false_iff] at ht
    exact ih ht.2 he
  | box t ih =>
    rw [hidesSlot, Bool.or_eq_false_iff] at ht
    exact ih ht.2 he
  | slice e' =>
    cases he
    exact ht
  | _ => cases he

theorem eq_any_of_resolved (ht : t.hidesSlot = false) (hany : t.resolved = .any) : t = .any := by
  cases t with
  | any => rfl
  | option t =>
    rw [hidesSlot, Bool.or_eq_false_iff, decide_eq_false_iff_not] at ht
    exact absurd hany ht.1
  | box t =>
    rw [hidesSlot, Bool.or_eq_false_iff, decide_eq_false_iff_not] at ht
    exact absurd hany ht.1
  | _ => cases hany

theorem sizeOf_elem_lt (he : t.resolved = .slice e) : sizeOf e < sizeOf t := by
  have hle := t.sizeOf_resolved_le
  rw [he] at hle
  simp only [slice.sizeOf_spec] at hle
  omega

end Ty

namespace Value

/-- a fresh element that the value is assigned to is left with the value itself -/
def Stable (S : Schema) (e : Ty) (x : Value) : Prop := Wrapper.assignedElement S e x = (.ok (), some x)

variable {S : Schema} {e t : Ty} {v x : Value} {xs : List Value}

/-! ## Stable values -/

theorem stable_of_convert (h : (convert S (layered e v) e.resolved).run.value = .ok v) : Stable S e (layered e v) :=
  Wrapper.assignedElement_eq_ok_iff.2 ⟨v, h, rfl⟩

theorem concrete_layered (hv : v.ty = e.resolved) (hany : e.resolved ≠ .any) :
    (layered e v).concrete = layered e v := by
  apply concrete_of_resolved_ne
  rw [ty_layered hv]
  exact hany

/-- zero values of types without structure are reset to themselves -/
theorem stable_of_isVoid (hvoid : S.isVoid e = true) (hany : e.resolved ≠ .any) : Stable S e (fresh S e) := by
  apply stable_of_convert
  rw [convert_of_isVoid]
  · rfl
  · rw [concrete_layered (ty_zero S _) hany, ty_layered (ty_zero S _)]
    exact hvoid

/-- what is copied as a whole is stable -/
theorem stable_of_ty (hv : v.ty = e.resolved) (hvoid : S.isVoid e = false) (hslice : ∀ e', e.resolved ≠ .slice e') :
    Stable S e (layered e v) := by
  have hpointer := isPointer_of_ty hv
  have hty := ty_layered hv
  have hcopy := convert_settled (S := S) (isSettled_layered (t := e) hpointer) (by rwa [hty]) (by rwa [hty])
  rw [hty, chainEnd_layered hpointer] at hcopy
  exact stable_of_convert hcopy

theorem stable_any (S : Schema) (src : Value) (h : (convert S src .any).run.value = .ok v) : Stable S .any v := by
  cases hvoid : S.isVoid src.concrete.ty with
  | true =>
    rw [convert_of_isVoid hvoid] at h
    cases h
    have hzero : convert S (zero S .any) .any = pure (zero S .any) := convert_of_isVoid (by rw [zero]; rfl) .any
    apply stable_of_convert (e := .any)
    change (convert S (zero S .any) .any).run.value = _
    rw [hzero]
    rfl
  | false =>
    rw [convert_any hvoid] at h
    cases h
    have hsame : (any src.concrete).concrete = src.concrete := src.concrete_concrete
    apply stable_of_convert (e := .any)
    change (convert S (any src.concrete) .any).run.value = _
    rw [convert_any (by rwa [hsame]), hsame]
    rfl

theorem stable_list_iff (ht : t.resolved = .slice e) :
    Stable S t (layered t (list e xs)) ↔ ∀ x ∈ xs, Stable S e x := by
  have hpointer : (list e xs).isPointer = false := rfl
  have hend := chainEnd_layered (t := t) hpointer
  have hsettled := isSettled_layered (t := t) hpointer
  have helements : Wrapper.Elements S e xs xs ↔ ∀ x ∈ xs, Stable S e x := List.forall₂_same
  rw [← helements, ← Wrapper.convertAll_eq_ok_iff (i := 0), Stable, Wrapper.assignedElement_eq_ok_iff, ht,
    convert_settled_list hsettled hend]
  simp only [Attempt.map_eq_ok]
  constructor
  · rintro ⟨v, ⟨ys, hys, rfl⟩, hv⟩
    have hsame := congrArg chainEnd hv
    rw [chainEnd_layered rfl, hend] at hsame
    rw [hys, (list.inj hsame).2]
  · exact fun hxs => ⟨list e xs, ⟨xs, hxs, rfl⟩, rfl⟩

/-! ## Whatever was assigned is stable -/

theorem stable_fresh (he : e.hidesSlot = false) : Stable S e (fresh S e) := by
  cases hvoid : S.isVoid e with
  | true =>
    by_cases hany : e.resolved = .any
    · obtain rfl := Ty.eq_any_of_resolved he hany
      exact stable_any S unit (congrArg _ (convert_of_isVoid rfl _))
    · exact stable_of_isVoid hvoid hany
  | false =>
    by_cases hslice : ∃ e', e.resolved = .slice e'
    · obtain ⟨e', he'⟩ := hslice
      rw [fresh, he', zero, stable_list_iff he']
      simp
    · exact stable_of_ty (ty_zero S _) hvoid fun e' he' => hslice ⟨e', he'⟩

/-- nothing is converted into a type without structure: what is left there is its zero value -/
theorem eq_zero_of_convert {src : Value} (h : (convert S src t).run.value = .ok v) (hpointer : t.isPointer = false)
    (hvoid : S.isVoid t = true) (hany : t ≠ .any) : v = zero S t := by
  have ht := (S.isVoid_iff t).1 hvoid
  rw [Ty.resolved_of_not_isPointer hpointer] at ht
  have hslice (e : Ty) : t ≠ .slice e := by
    rintro rfl
    simp at ht
  cases hleaf : src.leaf? S with
  | none =>
    rw [convert_leaf src hslice hany hpointer, hleaf] at h
    exact (Except.ok.inj h).symm
  | some u =>
    -- a leaf has structure, so it is not copied, and it is not a scalar that is asked for
    have hty : u.ty ≠ t := by
      rintro rfl
      obtain ⟨-, hknown, -⟩ := of_offered? (of_leaf? hleaf).1
      rw [hknown] at hvoid
      cases hvoid
    rw [convert_of_leaf? hleaf hslice hany hpointer, Attempt.value_liftExcept, convertLeaf, if_neg hty] at h
    rcases ht with rfl | rfl | ⟨name, rfl⟩ <;> cases h

end Value

theorem Wrapper.Elements.exists_source {S : Schema} {e : Ty} {srcs ys : List Value} (h : Elements S e srcs ys)
    {y : Value} (hy : y ∈ ys) : ∃ src, assignedElement S e src = (.ok (), some y) := by
  induction h with
  | nil => cases hy
  | cons hsrc _ ih =>
    rcases List.mem_cons.1 hy with rfl | hy
    · exact ⟨_, hsrc⟩
    · exact ih hy

namespace Value

/-- **What was converted is converted as it is.** By induction on the type, as the elements of a list are converted
ones. -/
theorem stable_layered {S : Schema} {e : Ty} {src v : Value} (he : e.hidesSlot = false)
    (h : (convert S src e.resolved).run.value = .ok v) : Stable S e (layered e v) := by
  by_cases hslice : ∃ e', e.resolved = .slice e'
  · obtain ⟨e', he'⟩ := hslice
    rw [he', convert_list] at h
    cases hu : src.offered? S with
    | none =>
      rw [hu] at h
      cases h
      rw [stable_list_iff he']
      simp
    | some u =>
      rw [hu] at h
      obtain ⟨ys, hys, rfl⟩ := Attempt.map_eq_ok.1 h
      rw [stable_list_iff he']
      intro y hy
      obtain ⟨item, hitem⟩ := (Wrapper.convertAll_eq_ok_iff.1 hys).exists_source hy
      obtain ⟨u, hu, rfl⟩ := Wrapper.assignedElement_eq_ok_iff.1 hitem
      exact stable_layered (Ty.hidesSlot_elem he he') hu
  have hslice : ∀ e', e.resolved ≠ .slice e' := fun e' he' => hslice ⟨e', he'⟩
  by_cases hany : e.resolved = .any
  · obtain rfl := Ty.eq_any_of_resolved he hany
    exact stable_any S src h
  cases hvoid : S.isVoid e with
  | true =>
    have hvoid' : S.isVoid e.resolved = true := by rw [Schema.isVoid, S.descriptor_resolved, ← Schema.isVoid, hvoid]
    rw [eq_zero_of_convert h e.resolved_isPointer hvoid' hany]
    exact stable_of_isVoid hvoid hany
  | false => exact stable_of_ty (ty_of_convert h) hvoid hslice
termination_by sizeOf e
decreasing_by exact Ty.sizeOf_elem_lt he'

/-- an assignment leaves stable storage in an element, with or without success -/
theorem stable_assigned {S : Schema} {e : Ty} (he : e.hidesSlot = false) (src : Value) :
    Stable S e (layered e (Wrapper.assigned S e.resolved src).2) := by
  unfold Wrapper.assigned
  split
  · next r hr => exact stable_layered he hr
  · exact stable_fresh he

theorem stable_elements {S : Schema} {e : Ty} {srcs ys : List Value} (he : e.hidesSlot = false)
    (h : Wrapper.Elements S e srcs ys) : ∀ y ∈ ys, Stable S e y := by
  intro y hy
  obtain ⟨src, hsrc⟩ := h.exists_source hy
  obtain ⟨v, hv, rfl⟩ := Wrapper.assignedElement_eq_ok_iff.1 hsrc
  exact stable_layered he hv

end Value

/-! ## Wrappers on stable storage -/

/-- a writable wrapper of a declared type whose storage is stable -/
def Wrapper.IsStable (S : Schema) (e : Ty) (w : Wrapper) : Prop := ∃ st, Holds S st w ∧ st.ty = e ∧ st.Stable S e

namespace Holds

variable {S : Schema} {st : Value} {w : Wrapper}

theorem isStable_put (h : Holds S st w) {v : Value} (hv : v.ty = st.ty.resolved)
    (hstable : (Value.layered st.ty v).Stable S st.ty) : (w.put v).IsStable S st.ty := by
  refine ⟨_, h.put hv, Value.ty_setChainEnd hv, ?_⟩
  rw [Value.setChainEnd_eq_layered]
  exact hstable

theorem isStable_assign (h : Holds S st w) (he : st.ty.hidesSlot = false) (src : Value) :
    (w.assign S src).value.2.IsStable S st.ty := by
  rw [Wrapper.value_assign h]
  exact h.isStable_put (Wrapper.ty_assigned S _ src) (Value.stable_assigned he src)

theorem isStable_reset (h : Holds S st w) (he : st.ty.hidesSlot = false) : (w.reset S).value.2.IsStable S st.ty := by
  rw [Wrapper.reset_eq h]
  exact h.isStable_put (Value.ty_zero S _) (Value.stable_fresh he)

/-- items are appended as converted elements, and the elements that are there stay -/
theorem isStable_append (h : Holds S st w) (he : st.ty.hidesSlot = false) (hstable : st.Stable S st.ty)
    (items : List Value) : (w.append S items).value.2.IsStable S st.ty := by
  by_cases hslice : ∃ e, st.ty.resolved = .slice e
  · obtain ⟨e, hslice⟩ := hslice
    obtain ⟨xs, hc⟩ := h.exists_list hslice
    rw [Wrapper.value_append h hc]
    cases hys : (Value.convertAll S items 0 e).run.value with
    | error err => exact ⟨st, h, rfl, hstable⟩
    | ok ys =>
      have hxs : ∀ x ∈ xs, x.Stable S e := by
        rw [← Value.stable_list_iff hslice, ← hc, h.settled.layered_chainEnd]
        exact hstable
      refine h.isStable_put hslice.symm ((Value.stable_list_iff hslice).2 ?_)
      rw [List.forall_mem_append]
      exact ⟨hxs, Value.stable_elements (Ty.hidesSlot_elem he hslice) (Wrapper.convertAll_eq_ok_iff.1 hys)⟩
  · have hno : w.descriptor.isSlice = false := Wrapper.isSlice_of_ne h fun e hslice' => hslice ⟨e, hslice'⟩
    rw [Wrapper.append, h.isUnbound, hno]
    exact ⟨st, h, rfl, hstable⟩

/-- enumeration, paths and fills leave everything but a record as it is -/
theorem unchanged_of_not_record (h : Holds S st w) (hno : ∀ name, st.ty.resolved ≠ .record name) (tag : Option String) :
    (w.fieldsFor S tag).value = ([], w) ∧ (∀ path, (w.fieldAt S path).value.2 = w ∧
      ∃ e, (w.fieldAt S path).value.1 = .error e) ∧ ∀ l, (w.fill S tag l).value.wrapper = w := by
  refine ⟨fieldsFor_of_not_isRecord (h.isRecord_eq_false hno) S tag, fun path => ?_, fun l => ?_⟩
  · cases path with
    | nil =>
      rw [Wrapper.fieldAt, h.isUnbound]
      exact ⟨rfl, _, rfl⟩
    | cons i rest =>
      have hfield : st.chainEnd.field? S i = none := by
        cases hf : st.chainEnd.field? S i with
        | none => rfl
        | some f =>
          obtain ⟨name, vs, hc⟩ := Value.eq_record_of_field? hf
          exact absurd (h.resolved_of_chainEnd hc) (hno name)
      obtain ⟨hsame, e, he⟩ := Value.descend_of_no_field hfield rest
      rw [h.value_fieldAt, hsame, he, h.put_contents]
      exact ⟨rfl, _, rfl⟩
  · rw [Wrapper.fill, h.value_visit_of_not_record tag _ hno]

end Holds

/-! ## Steps -/

namespace Script

variable {S : Schema} {w : Wrapper} {e : Ty} {s : Step} {steps : List Step}

/-- **A step keeps storage stable.** A record is stable whatever is done to its fields, and all else is changed by
assignments alone. -/
theorem isStable_exec (hs : s.Typed S) (hw : Built S w) (he : e.hidesSlot = false) (h : w.IsStable S e) :
    (exec S s w).value.2.IsStable S e := by
  obtain ⟨st, hst, rfl, hstable⟩ := h
  have hself : w.IsStable S st.ty := ⟨st, hst, rfl, hstable⟩
  by_cases hrec : ∃ name, st.ty.resolved = .record name
  · obtain ⟨name, hname⟩ := hrec
    obtain ⟨v, -, hv, heq⟩ := (rewrites_exec hs hw).exists_put hst
    rw [heq]
    refine hst.isStable_put hv (Value.stable_of_ty hv ?_ ?_)
    · rw [S.isVoid_eq_false_iff, hname]
      simp
    · simp [hname]
  have hno : ∀ name, st.ty.resolved ≠ .record name := fun name hname => hrec ⟨name, hname⟩
  cases hs with
  | assign hsrc =>
    rw [exec]
    exact hst.isStable_assign he _
  | reset =>
    rw [exec]
    exact hst.isStable_reset he
  | append hitems =>
    rw [exec]
    exact hst.isStable_append he hstable _
  | freshElement hsteps appended =>
    rw [exec, Traced.value_bind]
    cases (w.freshElement S).run.value with
    | error err => exact hself
    | ok elem =>
      cases appended with
      | false => exact hself
      | true => exact hst.isStable_append he hstable _
  | fields tag =>
    obtain ⟨hfields, -, -⟩ := hst.unchanged_of_not_record hno tag
    rw [exec, Traced.value_bind, hfields]
    exact hself
  | field tag i hsteps =>
    obtain ⟨hfields, -, -⟩ := hst.unchanged_of_not_record hno tag
    rw [exec_field_of_none (by rw [hfields]; rfl), hfields]
    exact hself
  | fieldAt path hsteps =>
    obtain ⟨-, hpath, -⟩ := hst.unchanged_of_not_record hno none
    obtain ⟨hsame, err, herr⟩ := hpath path
    rw [exec_fieldAt_of_error herr, hsame]
    exact hself
  | fill tag hl told =>
    obtain ⟨-, -, hfill⟩ := hst.unchanged_of_not_record hno tag
    rw [exec]
    change ((w.fill S tag _).value.wrapper).IsStable S st.ty
    rw [hfill]
    exact hself
  | _ =>
    rw [exec]
    exact hself

/-- **A run keeps storage stable.** -/
theorem isStable_execAll (hsteps : ∀ s ∈ steps, s.Typed S) (hw : Built S w) (he : e.hidesSlot = false)
    (h : w.IsStable S e) : (execAll S steps w).value.2.IsStable S e := by
  induction steps generalizing w with
  | nil =>
    rw [execAll]
    exact h
  | cons s ss ih =>
    rw [List.forall_mem_cons] at hsteps
    have hnext := (rewrites_exec hsteps.1 hw).built hw
    rw [execAll]
    exact ih hsteps.2 hnext (isStable_exec hsteps.1 hw he h)

end Script

/-! ## Built elements -/

namespace Wrapper

/-- **Appending a built element by value is pushing it.** On every writable list whose element type has no pointer to a
dynamic slot: whatever steps are run on a fresh element, with or without success, the value that the element stores then
is appended without a fault. It stands at the end of the list as it was built, which is what is left if the element
itself is pushed. -/
theorem append_built {S : Schema} {w : Wrapper} (hw : Built S w) {e : Ty} {xs : List Value}
    (hc : w.contents? = some (.list e xs)) (he : e.hidesSlot = false) :
    ∃ elem, (w.freshElement S).run.value = .ok elem ∧ ∀ steps, (∀ s ∈ steps, s.Typed S) →
      let built := (Script.execAll S steps elem).value.2
      ∃ inner, built.ownStorage? = some inner ∧ inner.ty = e ∧
        (w.append S [inner]).value = (.ok (), w.put (.list e (xs ++ [inner]))) ∧
        (w.append S [inner]).value.2.contents? = some (.list e (xs ++ [inner])) ∧
        (w.append S [inner]).value = w.pushElement built := by
  obtain ⟨st, -, h⟩ := hw.holds
  rw [h.contents, Option.some.injEq] at hc
  have hslice := h.resolved_of_chainEnd hc
  have helem : w.descriptor.elemType = some e := by rw [h.descriptor, Schema.elemType_of_resolved_slice S hslice]
  have hfresh : (w.freshElement S).run.value = .ok (own S (.zero S e)).value := by
    rw [freshElement_run S h.isUnbound helem]
  refine ⟨_, hfresh, ?_⟩
  intro steps hsteps built
  have hbuilt : Built S (own S (.zero S e)).value := .freshElement hfresh
  have hzero : (own S (.zero S e)).value.IsStable S e := by
    refine ⟨_, .own S _, by rw [Value.ty_allocate, Value.ty_zero], ?_⟩
    rw [Value.allocate_zero]
    exact Value.stable_fresh he
  obtain ⟨inner, hinner, hty, hstable⟩ := Script.isStable_execAll hsteps hbuilt he hzero
  -- an element keeps its storage to itself, whatever is run on it
  have hstorage : built.ownStorage? = some inner := by
    have hrewrites := Script.rewrites_execAll (fun s hs w => Script.rewrites_exec (hsteps s hs)) hbuilt
    obtain ⟨old, v, -, -, -, heq⟩ := hrewrites
    have hown : built.ownStorage?.isSome = true := by
      simp only [built, heq, isSome_ownStorage?_put]
      rfl
    obtain ⟨x, hx⟩ := Option.isSome_iff_exists.1 hown
    rw [hx, hinner.eq_of_ownStorage? hx]
  have hitems : (Value.convertAll S [inner] 0 e).run.value = .ok [inner] :=
    convertAll_eq_ok_iff.2 (.cons hstable .nil)
  have happend := value_append h hc [inner]
  rw [hitems] at happend
  refine ⟨inner, hstorage, hty, happend, ?_, ?_⟩
  · rw [happend]
    exact h.contents_put hslice.symm
  · have hpush := Value.pushAll_list (List.forall_mem_singleton.2 hty) xs
    rw [happend, pushElement, hstorage]
    simp only [pushAll, h.target, hc, hpush]

/-- a row behind a pointer, built by an append, by one that fails and by an element of its own: appended as a value, and
pushed -/
theorem append_built_row :
    let row : Ty := .option (.slice Sample.byte)
    let w := (locate Sample.schema (.list row [.nil (.slice Sample.byte)])).value
    let steps : List Step := [.append [.literal "7"], .append [.literal "8", .literal "x"],
      .freshElement [.assign (.literal "9")] true]
    let built := (Script.execAll Sample.schema steps (own Sample.schema (.zero Sample.schema row)).value).value.2
    let inner : Value := .ptr (Sample.bytes [7, 9])
    built.ownStorage? = some inner ∧ (w.append Sample.schema [inner]).value = w.pushElement built ∧
      (w.pushElement built).2.contents? = some (.list row [.nil (.slice Sample.byte), inner]) := by
  intro row w steps built inner
  have hw : Built Sample.schema w := .locate (WellTyped.list_iff.2 (List.forall_mem_singleton.2 ⟨rfl, .nil _⟩))
  have hsteps : ∀ s ∈ steps, s.Typed Sample.schema := by
    have hliteral (s : String) : WellTyped Sample.schema (.literal s) := .literal s
    simp only [steps, List.forall_mem_cons]
    refine ⟨.append (by simp [hliteral]), .append (by simp [hliteral]), .freshElement ?_ true, by simp⟩
    exact List.forall_mem_singleton.2 (.assign (hliteral "9"))
  have hcontents : w.contents? = some (.list row [.nil (.slice Sample.byte)]) := rfl
  obtain ⟨elem, helem, hall⟩ := append_built hw hcontents rfl
  have hfresh : (w.freshElement Sample.schema).run.value =
      .ok (own Sample.schema (.zero Sample.schema row)).value := rfl
  obtain rfl := Except.ok.inj (hfresh.symm.trans helem)
  obtain ⟨x, hx, -, -, hcontents, hpush⟩ := hall steps hsteps
  have hinner : (Script.execAll Sample.schema steps
      (own Sample.schema (.zero Sample.schema row)).value).value.2.ownStorage? = some inner := by cbv
  obtain rfl := Option.some.inj (hinner.symm.trans hx)
  rw [hpush] at hcontents
  exact ⟨hinner, hpush, hcontents⟩

/-- a dynamic slot behind a pointer loses what it holds when it is appended -/
example :
    let w := (own Sample.schema (.list (.box .any) [])).value
    (w.append Sample.schema [.box (.any (.literal "5"))]).value.2.contents? =
      some (.list (.box .any) [.box (.any .unit)]) := by cbv

end Wrapper

end DynAssign
