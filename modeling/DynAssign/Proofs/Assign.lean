/-
Assignment is conversion: what `Wrapper.assign` leaves is a function of the source and the destination's type.

`assign` and `append` work on a wrapper step by step, with elements that have wrappers of their own, and `assign` is
called again on those and on the last element of a list. `Value.convert` has no wrapper. The two agree:
- `assign_eq_store`: an assignment stores what the conversion gives, or the zero value on a fault;
- `buildAll_eq_convertAll`: what is built for a list are the converted items, and `append` puts them at its end
  (`value_append`).

Main statement, on any two writable wrappers of one type: `assign_ignores_contents`.
-/
import Mathlib
import DynAssign.Proofs.Built

namespace DynAssign

theorem Value.pushAll_list {e : Ty} {ys : List Value} (h : ∀ y ∈ ys, y.ty = e) (xs : List Value) :
    (Value.list e xs).pushAll ys = some (.ok (), .list e (xs ++ ys)) := by
  induction ys generalizing xs with
  | nil => simp [Value.pushAll, Value.items?]
  | cons y ys ih =>
    rw [List.forall_mem_cons] at h
    rw [Value.pushAll, Value.push, if_pos h.1]
    simpa using ih h.2 (xs ++ [y])

namespace Wrapper

/-- the result of a conversion written to the contents, the zero value on a fault -/
def store (S : Schema) (w : Wrapper) (t : Ty) (x : Attempt Fault Value) : Outcome := do
  match ← x.run with
  | .ok r => Outcome.ok (w.put r)
  | .error e => Outcome.fault e (w.put (.zero S t))

@[simp] theorem store_pure (S : Schema) (w : Wrapper) (t : Ty) (r : Value) :
    w.store S t (pure r) = .ok (w.put r) := rfl

theorem store_put (S : Schema) (w : Wrapper) (t : Ty) {v : Value} (hv : v.isPointer = false) (x : Attempt Fault Value) :
    (w.put v).store S t x = w.store S t x := by
  simp [store, put_put w hv]

/-- a value that is no list, copied if it is of the type asked for and coerced otherwise -/
theorem store_convertLeaf (S : Schema) (w : Wrapper) (t : Ty) (u : Value) :
    (match if u.ty = t then some u else none with
      | some r => Outcome.ok (w.put r)
      | none => match u.coerce t with
        | .ok r => Outcome.ok (w.put r)
        | .error e => Outcome.fault e (w.put (.zero S t))) = w.store S t (liftExcept (u.convertLeaf t)) := by
  rw [Value.convertLeaf]
  by_cases hu : u.ty = t
  · rw [if_pos hu, if_pos hu]
    rfl
  · rw [if_neg hu, if_neg hu]
    cases u.coerce t <;> rfl

theorem freshElement_run (S : Schema) {w : Wrapper} {e : Ty} (hw : w.isUnbound = false)
    (he : w.descriptor.elemType = some e) :
    (w.freshElement S).run = ⟨.ok (own S (.zero S e)).value, e.optionals.map .allocated⟩ := by
  rw [freshElement, hw, he]
  ext1 <;> simp [own, Value.allocate_zero]

section

variable {S : Schema} {st src : Value} {w : Wrapper}

theorem reset_eq (h : Holds S st w) : w.reset S = .ok (w.put (.zero S st.ty.resolved)) := by
  rw [reset, h.isUnbound, h.target, ← h.ty_chainEnd]
  rfl

theorem isSlice_of_ne (h : Holds S st w) (hslice : ∀ e, st.ty.resolved ≠ .slice e) : w.descriptor.isSlice = false := by
  rw [Bool.eq_false_iff, h.descriptor, Ne, Schema.isSlice_iff]
  rintro ⟨e, he⟩
  exact hslice e he

theorem assign_of_isVoid (h : Holds S st w) (hvoid : S.isVoid src.concrete.ty = true) :
    w.assign S src = .ok (w.put (.zero S st.ty.resolved)) := by
  rw [assign.eq_def, h.isUnbound, h.target, ← h.ty_chainEnd]
  simp [hvoid]

theorem assign_slice (h : Holds S st w) (hvoid : S.isVoid src.concrete.ty = false) {e : Ty}
    (he : st.ty.resolved = .slice e) :
    w.assign S src = match src.concrete.content? with
      | none => .ok (w.put (.list e []))
      | some u => (w.put (.list e [])).appendAll S u.asItems := by
  have hslice : w.descriptor.isSlice = true := by
    rw [h.descriptor, Schema.isSlice_iff]
    exact ⟨e, he⟩
  rw [assign.eq_def, h.isUnbound, h.target]
  simp only [Bool.false_eq_true, if_false, h.ty_chainEnd, he, hvoid, descriptor_put, hslice, if_true, Value.zero]
  split <;> simp_all

theorem assign_any (h : Holds S st w) (hvoid : S.isVoid src.concrete.ty = false) (hany : st.ty.resolved = .any) :
    w.assign S src = .ok (w.put (.any src.concrete)) := by
  have hslice := isSlice_of_ne h fun e he => by rw [hany] at he; cases he
  rw [assign.eq_def, h.isUnbound, h.target]
  simp only [Bool.false_eq_true, if_false, h.ty_chainEnd, hany, hvoid, descriptor_put, hslice, Value.copyOver?,
    Value.ty_zero, if_true, Value.concrete_concrete]
  rw [put_put w (Value.isPointer_of_ty (t := .any) (Value.ty_zero S .any))]

theorem assign_single (h : Holds S st w) (hvoid : S.isVoid src.concrete.ty = false)
    (hslice : ∀ e, st.ty.resolved ≠ .slice e) (hany : st.ty.resolved ≠ .any) :
    w.assign S src =
      if src.concrete.ty = st.ty.resolved then .ok (w.put src.concrete)
      else match src.concrete.content? with
        | none => .ok (w.put (.zero S st.ty.resolved))
        | some u => match u.items? with
          | none => w.store S st.ty.resolved (liftExcept (u.convertLeaf st.ty.resolved))
          | some xs => match xs.getLast? with
            | none => .ok (w.put (.zero S st.ty.resolved))
            | some x => (w.put (.zero S st.ty.resolved)).assign S x := by
  have hslice := isSlice_of_ne h hslice
  rw [assign.eq_def, h.isUnbound, h.target]
  simp only [Bool.false_eq_true, if_false, h.ty_chainEnd, hvoid, descriptor_put, hslice, Value.copyOver?,
    Value.ty_zero, hany]
  have hput := put_put w (v := .zero S st.ty.resolved) (by simp [Value.isPointer])
  by_cases hty : src.concrete.ty = st.ty.resolved
  · simp [hty, hput]
  simp only [hty, if_false]
  split <;> simp_all
  split <;> simp_all
  · split <;> simp_all
  · exact store_convertLeaf _ _ _ _

end

theorem ownStorage?_element (S : Schema) (e : Ty) (v : Value) :
    ((own S (.zero S e)).value.put v).ownStorage? = some (.layered e v) := by
  simp [own, bind, put, Place.put, ownStorage?, Value.allocate_zero, Value.fresh, Value.setChainEnd_layered,
    Value.isPointer]

/-- storing in a fresh element and taking its storage is putting the value behind the layers of the element type -/
theorem element_of_store (S : Schema) (e : Ty) (x : Attempt Fault Value) (rest : Attempt Fault (List Value)) (i : Nat) :
    (do
      match ← ExceptT.lift ((own S (.zero S e)).value.store S e.resolved x) with
      | (.error err, _) => throw (Fault.inElement i err)
      | (.ok (), elem) => do
        let built ← rest
        pure (elem.ownStorage?.toList ++ built)) = (do
      let v ← Attempt.inContext (Fault.inElement i) x
      let vs ← rest
      pure (Value.layered e v :: vs)) := by
  apply ExceptT.ext
  simp only [ExceptT.run_bind, ExceptT.run_lift, store, bind_assoc, map_bind, bind_map_left, Attempt.inContext,
    ExceptT.run_mk]
  apply Traced.bind_congr
  cases hx : x.run.value with
  | error err => rfl
  | ok v =>
    simp only [Outcome.ok, pure_bind, ownStorage?_element, Except.mapError, ExceptT.run_bind, Option.toList_some,
      List.singleton_append]

/-- converted elements pushed to an emptied list are the list -/
theorem appendAll_emptied {S : Schema} {st : Value} {w : Wrapper} (h : Holds S st w) {e : Ty}
    (he : st.ty.resolved = .slice e) {items : List Value}
    (hbuild : buildAll S (w.put (.list e [])) items 0 = Value.convertAll S items 0 e) :
    (w.put (.list e [])).appendAll S items = w.store S (.slice e) (.list e <$> Value.convertAll S items 0 e) := by
  have hw := h.put (x := .list e []) he.symm
  have hp : (Value.list e []).isPointer = false := rfl
  rw [appendAll, hbuild, hw.writable, store]
  simp only [Bool.not_true, Bool.false_eq_true, if_false, ExceptT.run_map, bind_map_left]
  apply Traced.bind_congr
  cases hv : (Value.convertAll S items 0 e).run.value with
  | error e => simp [Except.map, Value.zero]
  | ok ys =>
    have hpush := Value.pushAll_list (Value.ty_of_mem_convertAll hv) []
    simp only [pushAll, hw.target, Value.chainEnd_setChainEnd st hp, hpush, List.nil_append, put_put w hp]
    rfl

/-- contents that are no list, and cannot take any value: what is left to show is the call on the last item -/
theorem assign_single_eq_store {S : Schema} {st src : Value} {w : Wrapper} (h : Holds S st w)
    (hvoid : S.isVoid src.concrete.ty = false) (hslice : ∀ e, st.ty.resolved ≠ .slice e)
    (hany : st.ty.resolved ≠ .any)
    (hlast : ∀ u xs x, src.concrete.content? = some u → u.items? = some xs → xs.getLast? = some x →
      (w.put (.zero S st.ty.resolved)).assign S x =
        (w.put (.zero S st.ty.resolved)).store S st.ty.resolved (Value.convert S x st.ty.resolved)) :
    w.assign S src = w.store S st.ty.resolved (Value.convert S src st.ty.resolved) := by
  rw [assign_single h hvoid hslice hany, Value.convert_single hvoid hslice hany]
  by_cases hty : src.concrete.ty = st.ty.resolved
  · rw [if_pos hty, if_pos hty, store_pure]
  rw [if_neg hty, if_neg hty]
  cases hu : src.concrete.content? with
  | none => rfl
  | some u =>
    dsimp only
    cases hxs : u.items? with
    | none => rfl
    | some xs =>
      dsimp only
      cases hx : xs.getLast? with
      | none => rfl
      | some x => exact (hlast u xs x hu hxs hx).trans (store_put S w _ (Value.isPointer_of_ty (Value.ty_zero S _)) _)

mutual

/-- **Assignment is conversion.** An assignment stores what the source converts to in the type of the contents. -/
theorem assign_eq_store {S : Schema} {st : Value} {w : Wrapper} (h : Holds S st w) (src : Value) :
    w.assign S src = w.store S st.ty.resolved (Value.convert S src st.ty.resolved) := by
  cases hvoid : S.isVoid src.concrete.ty with
  | true => rw [assign_of_isVoid h hvoid, Value.convert_of_isVoid hvoid, store_pure]
  | false =>
    by_cases hany : st.ty.resolved = .any
    · rw [assign_any h hvoid hany, hany, Value.convert_any hvoid, store_pure]
    by_cases hslice : ∃ e, st.ty.resolved = .slice e
    · obtain ⟨e, he⟩ := hslice
      rw [assign_slice h hvoid he, he, Value.convert_slice hvoid]
      cases hu : src.concrete.content? with
      | none => rfl
      | some u =>
        have hw := h.put (x := .list e []) he.symm
        have helem : (w.put (.list e [])).descriptor.elemType = some e := by
          rw [descriptor_put, h.descriptor, Schema.elemType_of_resolved_slice S he]
        exact appendAll_emptied h he (buildAll_eq_convertAll hw.isUnbound helem u.asItems 0)
    · have hslice : ∀ e, st.ty.resolved ≠ .slice e := fun e he => hslice ⟨e, he⟩
      refine assign_single_eq_store h hvoid hslice hany fun u xs x hu hxs hx => ?_
      have hz : (Value.zero S st.ty.resolved).ty = st.ty.resolved := Value.ty_zero S _
      have hlast := assign_eq_store (h.put hz) x
      rw [Value.ty_setChainEnd hz] at hlast
      exact hlast
termination_by (sizeOf src, sizeOf st.ty.resolved, 0)
decreasing_by
  · have h1 := Value.totalSize_asItems_le u
    have h2 := Value.sizeOf_content?_le hu
    have h3 := Value.sizeOf_concrete_le src
    exact Prod.Lex.right' _ (by omega) (Prod.Lex.left _ _ (by simp [he]))
  · have h1 := Value.sizeOf_getLast?_lt hxs hx
    have h2 := Value.sizeOf_content?_le hu
    have h3 := Value.sizeOf_concrete_le src
    exact Prod.Lex.left _ _ (by omega)

theorem buildAll_eq_convertAll {S : Schema} {w : Wrapper} {e : Ty} (hw : w.isUnbound = false)
    (he : w.descriptor.elemType = some e) (items : List Value) (i : Nat) :
    buildAll S w items i = Value.convertAll S items i e := by
  cases items with
  | nil => rw [buildAll, Value.convertAll]
  | cons item rest =>
    have helem := Holds.own S (Value.zero S e)
    have hrest := buildAll_eq_convertAll (S := S) hw he rest (i + 1)
    have hassign := assign_eq_store helem item
    rw [buildAll, Value.convertAll, freshElement_run S hw he]
    rw [Value.ty_allocate, Value.ty_zero] at hassign
    simp only [hassign, hrest]
    congr 1
    funext _
    exact element_of_store S e _ _ i
termination_by (Value.totalSize items, sizeOf e, 1)
decreasing_by
  · exact Prod.Lex.left _ _ (by have := Value.sizeOf_pos item; simp [Value.totalSize]; omega)
  · have h1 := e.sizeOf_resolved_le
    simp only [Value.ty_allocate, Value.ty_zero]
    exact Prod.Lex.right' _ (by simp [Value.totalSize]) (Prod.Lex.right' _ h1 (by decide))

end

/-! ## What is left in the contents -/

/-- what an assignment leaves in contents of a type, with its outcome -/
def assigned (S : Schema) (t : Ty) (src : Value) : Except Fault Unit × Value :=
  match (Value.convert S src t).run.value with
  | .ok r => (.ok (), r)
  | .error e => (.error e, .zero S t)

theorem ty_assigned (S : Schema) (t : Ty) (src : Value) : (assigned S t src).2.ty = t := by
  unfold assigned
  split
  · rename_i r hr
    exact Value.ty_of_convert hr
  · exact Value.ty_zero S t

theorem assigned_of_error {S : Schema} {t : Ty} {src : Value} {e : Fault} (h : (assigned S t src).1 = .error e) :
    (assigned S t src).2 = .zero S t := by
  unfold assigned at h ⊢
  split at h
  · cases h
  · rfl

theorem value_assign {S : Schema} {st : Value} {w : Wrapper} (h : Holds S st w) (src : Value) :
    (w.assign S src).value =
      ((assigned S st.ty.resolved src).1, w.put (assigned S st.ty.resolved src).2) := by
  rw [assign_eq_store h, store, Traced.value_bind, assigned]
  cases (Value.convert S src st.ty.resolved).run.value <;> rfl

theorem contents?_assign {S : Schema} {st : Value} {w : Wrapper} (h : Holds S st w) (src : Value) :
    (w.assign S src).value.2.contents? = some (assigned S st.ty.resolved src).2 := by
  rw [value_assign h, h.contents_put (ty_assigned S st.ty.resolved src)]

theorem value_append {S : Schema} {st : Value} {w : Wrapper} (h : Holds S st w) {e : Ty} {xs : List Value}
    (hc : st.chainEnd = .list e xs) (items : List Value) :
    (w.append S items).value = match (Value.convertAll S items 0 e).run.value with
      | .ok ys => (.ok (), w.put (.list e (xs ++ ys)))
      | .error err => (.error err, w) := by
  have he : st.ty.resolved = .slice e := h.resolved_of_chainEnd hc
  have hslice : w.descriptor.isSlice = true := by
    rw [h.descriptor, Schema.isSlice_iff]
    exact ⟨e, he⟩
  have helem : w.descriptor.elemType = some e := by rw [h.descriptor, Schema.elemType_of_resolved_slice S he]
  rw [append, appendAll, h.isUnbound, hslice, h.writable,
    buildAll_eq_convertAll h.isUnbound helem]
  simp only [Bool.not_true, Bool.false_eq_true, if_false, Traced.value_bind]
  cases hys : (Value.convertAll S items 0 e).run.value with
  | error err => rfl
  | ok ys =>
    have hpush := Value.pushAll_list (Value.ty_of_mem_convertAll hys) xs
    simp [pushAll, h.target, hc, hpush]

/-- **Assignment forgets the contents.** On any two writable wrappers of one declared type, whatever they hold, an
assignment has the same outcome and leaves the same contents; after a fault these are the zero value of the resolved
type. -/
theorem assign_ignores_contents {S : Schema} {w₁ w₂ : Wrapper} (h₁ : Built S w₁) (h₂ : Built S w₂) {t : Ty}
    (ht₁ : w₁.declared = some t) (ht₂ : w₂.declared = some t) (src : Value) :
    ∃ r x, (w₁.assign S src).value.1 = r ∧ (w₂.assign S src).value.1 = r ∧
      (w₁.assign S src).value.2.contents? = some x ∧ (w₂.assign S src).value.2.contents? = some x ∧
      x.ty = t.resolved ∧ ∀ e, r = .error e → x = .zero S t.resolved := by
  obtain ⟨st₁, -, hw₁⟩ := h₁.holds
  obtain ⟨st₂, -, hw₂⟩ := h₂.holds
  have ht₁ : st₁.ty = t := Option.some.inj (hw₁.declared.symm.trans ht₁)
  have ht₂ : st₂.ty = t := Option.some.inj (hw₂.declared.symm.trans ht₂)
  refine ⟨(assigned S t.resolved src).1, (assigned S t.resolved src).2, ?_, ?_, ?_, ?_, ty_assigned S _ src, ?_⟩
  · rw [value_assign hw₁, ht₁]
  · rw [value_assign hw₂, ht₂]
  · rw [contents?_assign hw₁, ht₁]
  · rw [contents?_assign hw₂, ht₂]
  · intro e he
    exact assigned_of_error he

/-- a text that is no number, in the second element of the first row: full rows and empty rows both end up empty -/
theorem assign_ignores_contents_of_rows :
    let src := Value.list .any [.any (.list (.scalar .string) [.scalar (.string "1"), .scalar (.string "x")])]
    let w₁ := (locate Sample.schema (Sample.rows [[1, 2], [3]])).value
    let w₂ := (own Sample.schema (Sample.rows [])).value
    let fault := Fault.inElement 0 (.inElement 1 (.coercion "\"x\"" "u8"))
    (w₁.assign Sample.schema src).value.1 = .error fault ∧ (w₂.assign Sample.schema src).value.1 = .error fault ∧
      (w₁.assign Sample.schema src).value.2.contents? = some (Sample.rows []) ∧
      (w₂.assign Sample.schema src).value.2.contents? = some (Sample.rows []) := by
  intro src w₁ w₂ fault
  obtain ⟨r, x, hr₁, hr₂, hx₁, hx₂, -, hzero⟩ := assign_ignores_contents
    (.locate (Sample.wellTyped_rows [[1, 2], [3]])) (.own (Sample.wellTyped_rows [])) (t := .slice (.slice Sample.byte))
    rfl rfl src
  have hfault : (w₁.assign Sample.schema src).value.1 = .error fault := by cbv
  have hr : r = .error fault := hr₁.symm.trans hfault
  have hx : x = Sample.rows [] := by
    rw [show x = .zero Sample.schema (.slice (.slice Sample.byte)) from hzero fault hr, Value.zero]
    rfl
  exact ⟨hfault, hr₂.trans hr, by rw [← hx]; exact hx₁, by rw [← hx]; exact hx₂⟩

end Wrapper

end DynAssign
