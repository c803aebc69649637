/-
Copies: a value assigned to a location of its own type.

A record, a map or a scalar is copied as a whole. A list is not: its elements are built one by one, each in a fresh
location whose pointers are allocated. So a copy differs from its source where the source has a nil pointer at the top
or in a list, and nowhere else. `Value.complete` is the source with those pointers filled in, and `Value.ShowsNil` says
that there is one.

- `complete_eq_self_iff`: a value is complete iff it shows no nil pointer.
- `convert_copy`: a value is converted into its own type as the end of the chain of the completed value. The induction
  is on the value, and the lists in it are the only way down.
- `Wrapper.assign_copy`: the main statement.
-/
import DynAssign.Proofs.Elements

namespace DynAssign

/-! ## Types of values that can be copied -/

/-- the types built from scalars, fixed text, records and maps by lists and pointers -/
inductive Ty.Copyable : Ty → Prop where
  | scalar (k : ScalarKind) : Copyable (.scalar k)
  | literal : Copyable .literal
  | map (kind : MapKind) (key : ScalarKind) (elem : Ty) : Copyable (.map kind key elem)
  | record (name : String) : Copyable (.record name)
  | slice {e : Ty} (he : Copyable e) : Copyable (.slice e)
  | option {t : Ty} (ht : Copyable t) : Copyable (.option t)
  | box {t : Ty} (ht : Copyable t) : Copyable (.box t)

theorem Ty.Copyable.resolved {t : Ty} (h : t.Copyable) : t.resolved.Copyable := by
  induction h with
  | scalar k => exact .scalar k
  | literal => exact .literal
  | map kind key elem => exact .map kind key elem
  | record name => exact .record name
  | slice he => exact .slice he
  | option _ ih => exact ih
  | box _ ih => exact ih

theorem Ty.Copyable.elem {e : Ty} (h : Copyable (.slice e)) : e.Copyable := by
  cases h with
  | slice he => exact he

theorem Schema.isVoid_of_copyable (S : Schema) {t : Ty} (h : t.Copyable) : S.isVoid t = false := by
  have hend := h.resolved
  rw [S.isVoid_eq_false_iff]
  refine ⟨?_, ?_, ?_⟩
  · intro hunit
    rw [hunit] at hend
    cases hend
  · intro hany
    rw [hany] at hend
    cases hend
  · intro name hsealed
    rw [hsealed] at hend
    cases hend

namespace Value

/-! ## Completion -/

mutual

/-- the value with every nil pointer at its top or in a list replaced by a fresh value behind a pointer; what is inside
records and maps stays as it is -/
def complete (S : Schema) : Value → Value
  | nil t => ptr (fresh S t)
  | ptr v => ptr (v.complete S)
  | box v => box (v.complete S)
  | list e xs => list e (completeAll S xs)
  | v => v

/-- the elements of a list, each completed -/
def completeAll (S : Schema) : List Value → List Value
  | [] => []
  | x :: xs => x.complete S :: completeAll S xs

end

/-- a nil pointer at the top of a value or in a list, not inside a record or a map -/
inductive ShowsNil : Value → Prop where
  | nil (t : Ty) : ShowsNil (.nil t)
  | ptr {v : Value} (h : ShowsNil v) : ShowsNil (.ptr v)
  | box {v : Value} (h : ShowsNil v) : ShowsNil (.box v)
  | item {e : Ty} {x : Value} {xs : List Value} (hx : x ∈ xs) (h : ShowsNil x) : ShowsNil (.list e xs)

variable {S : Schema}

mutual

theorem complete_eq_self_iff (v : Value) : v.complete S = v ↔ ¬ v.ShowsNil := by
  cases v with
  | nil t =>
    rw [complete]
    exact ⟨nofun, fun h => absurd (.nil t) h⟩
  | ptr v =>
    rw [complete, ptr.injEq, complete_eq_self_iff v]
    exact not_congr ⟨.ptr, fun h => by cases h; assumption⟩
  | box v =>
    rw [complete, box.injEq, complete_eq_self_iff v]
    exact not_congr ⟨.box, fun h => by cases h; assumption⟩
  | list e xs =>
    rw [complete, list.injEq, completeAll_eq_self_iff xs]
    constructor
    · rintro ⟨-, hxs⟩ (_ | _ | _ | ⟨hx, h⟩)
      exact hxs _ hx h
    · exact fun h => ⟨rfl, fun x hx hshow => h (.item hx hshow)⟩
  | _ => exact iff_of_true rfl nofun

theorem completeAll_eq_self_iff (xs : List Value) : completeAll S xs = xs ↔ ∀ x ∈ xs, ¬ x.ShowsNil := by
  cases xs with
  | nil => simp [completeAll]
  | cons x xs => rw [completeAll, List.cons.injEq, List.forall_mem_cons, complete_eq_self_iff x,
      completeAll_eq_self_iff xs]

end

theorem complete_of_nil {v : Value} {t : Ty} (h : v.chainEnd = nil t) : v.complete S = fresh S v.ty := by
  fun_induction chainEnd v with
  | case1 v ih => rw [complete, ih h]; rfl
  | case2 v ih => rw [complete, ih h]; rfl
  | case3 v =>
    subst h
    rfl

theorem IsSettled.complete {v : Value} (h : v.IsSettled) (S : Schema) :
    v.complete S = layered v.ty (v.chainEnd.complete S) := by
  unfold IsSettled at h
  fun_induction chainEnd v with
  | case1 v ih => rw [Value.complete, ih h, ty, layered]
  | case2 v ih => rw [Value.complete, ih h, ty, layered]
  | case3 v h1 h2 => cases v <;> simp_all [layered, ty, isPointer, Ty.isPointer]

/-! ## Conversion into the own type -/

/-- a nil pointer gives the zero value, whatever the destination is but a dynamic slot -/
theorem convert_of_content?_eq_none {src : Value} {t : Ty} (hvoid : S.isVoid src.concrete.ty = false)
    (hc : src.content? = none) (hany : t ≠ .any) (ht : t.isPointer = false) : convert S src t = pure (zero S t) := by
  by_cases hslice : ∃ e, t = .slice e
  · obtain ⟨e, rfl⟩ := hslice
    rw [convert_slice hvoid, content?_concrete, hc, zero]
  · rw [convert_content hvoid (fun e he => hslice ⟨e, he⟩) hany ht, hc]

/-- a list is built from its completed elements if each of them is converted into the own type -/
theorem elements_completeAll {e : Ty} {xs : List Value} (h : ∀ x ∈ xs, ∃ v,
      (convert S x e.resolved).run.value = .ok v ∧ layered e v = x.complete S) :
    Wrapper.Elements S e xs (completeAll S xs) := by
  induction xs with
  | nil => exact .nil
  | cons x xs ih =>
    rw [List.forall_mem_cons] at h
    exact .cons (Wrapper.assignedElement_eq_ok_iff.2 h.1) (ih h.2)

/-- a value that is neither a pointer nor a list has no elements and is complete -/
theorem leaf_of_ty {v : Value} (hp : v.ty.isPointer = false) (hslice : ∀ e, v.ty ≠ .slice e) :
    v.items? = none ∧ v.complete S = v := by
  cases v with
  | list e xs => exact absurd rfl (hslice e)
  | nil t => cases hp
  | ptr v => cases hp
  | box v => cases hp
  | _ => exact ⟨rfl, rfl⟩

section

variable {x : Value}

/-- a value whose chain ends in neither a list nor a type without structure is copied -/
theorem convert_settled (hx : x.IsSettled) (hknown : S.isVoid x.ty = false) (hslice : ∀ e, x.ty.resolved ≠ .slice e) :
    (convert S x x.ty.resolved).run.value = .ok x.chainEnd := by
  have hany := Schema.resolved_ne_any hknown
  have hvoid : S.isVoid x.concrete.ty = false := by rw [concrete_of_resolved_ne hany, hknown]
  have hpointer := x.ty.resolved_isPointer
  have hty := hx.ty_chainEnd
  obtain ⟨hitems, -⟩ := leaf_of_ty (S := S) (v := x.chainEnd) (by rw [hty, hpointer]) (by rwa [hty])
  rw [convert_content hvoid hslice hany hpointer, hx.content? hany]
  simp only [hitems, convertLeaf, if_pos hty, Attempt.value_liftExcept]

theorem convert_settled_list (hx : x.IsSettled) {e : Ty} {xs : List Value} (hend : x.chainEnd = list e xs) :
    convert S x (.slice e) = list e <$> convertAll S xs 0 e := by
  have he : x.ty.resolved = .slice e := by rw [← hx.ty_chainEnd, hend, ty]
  have hany : x.ty.resolved ≠ .any := by simp [he]
  have hvoid : S.isVoid x.concrete.ty = false := by
    rw [concrete_of_resolved_ne hany, S.isVoid_eq_false_iff, he]
    simp
  rw [convert_slice hvoid, content?_concrete, hx.content? hany, hend]
  rfl

end

/-- **Conversion into the own type completes.** A value is converted into the end of the chain of the completed
value. -/
theorem convert_copy {x : Value} (hx : WellTyped S x) (hcopy : x.ty.Copyable) :
    ∃ v, (convert S x x.ty.resolved).run.value = .ok v ∧ layered x.ty v = x.complete S := by
  have hknown := S.isVoid_of_copyable hcopy
  have hany := Schema.resolved_ne_any hknown
  have hpointer := x.ty.resolved_isPointer
  rcases content?_cases hany with ⟨hsettled, -⟩ | ⟨⟨t, ht⟩, hc⟩
  · have hty := hsettled.ty_chainEnd
    rw [hsettled.complete]
    by_cases hslice : ∃ e, x.ty.resolved = .slice e
    · obtain ⟨e, he⟩ := hslice
      obtain ⟨xs, hend⟩ := eq_list_of_ty (hty.trans he)
      have htyped := wellTyped_chainEnd hx
      rw [hend, WellTyped.list_iff] at htyped
      have helem : e.Copyable := .elem (he ▸ hcopy.resolved)
      have hitem (y : Value) (hy : y ∈ xs) :
          ∃ v, (convert S y e.resolved).run.value = .ok v ∧ layered e v = y.complete S := by
        obtain ⟨hye, hyt⟩ := htyped y hy
        rw [← hye]
        exact convert_copy hyt (hye ▸ helem)
      have hall := (Wrapper.convertAll_eq_ok_iff (i := 0)).2 (elements_completeAll hitem)
      refine ⟨list e (completeAll S xs), ?_, by rw [hend, complete]⟩
      rw [he, convert_settled_list hsettled hend]
      exact Attempt.map_eq_ok.2 ⟨_, hall, rfl⟩
    · have hslice : ∀ e, x.ty.resolved ≠ .slice e := fun e he => hslice ⟨e, he⟩
      obtain ⟨-, hcomplete⟩ := leaf_of_ty (S := S) (v := x.chainEnd) (by rw [hty, hpointer]) (by rwa [hty])
      exact ⟨x.chainEnd, convert_settled hsettled hknown hslice, by rw [hcomplete]⟩
  · have hvoid : S.isVoid x.concrete.ty = false := by rw [concrete_of_resolved_ne hany, hknown]
    refine ⟨zero S x.ty.resolved, ?_, ?_⟩
    · rw [convert_of_content?_eq_none hvoid hc hany hpointer, Attempt.value_pure]
    · rw [complete_of_nil ht, fresh]
termination_by sizeOf x
decreasing_by
  have h1 := sizeOf_chainEnd_le x
  have h2 := List.sizeOf_lt_of_mem hy
  rw [hend] at h1
  simp at h1
  omega

end Value

namespace Wrapper

/-- **A value is copied into a location of its own type.** On every writable wrapper, whatever it holds, a value of the
declared type is assigned without a fault, and the storage is the completed value then: each nil pointer at its top or
in a list has become a fresh value behind a pointer, and everything else is as it is, nil pointers in records and hidden
fields included. So the copy is the value itself iff there is no such pointer. -/
theorem assign_copy {S : Schema} {w : Wrapper} (hw : Built S w) {x : Value} (hx : WellTyped S x)
    (ht : w.declared = some x.ty) (hcopy : x.ty.Copyable) :
    (w.assign S x).value.1 = .ok () ∧ (w.assign S x).value.2.storage? = some (x.complete S) ∧
      ((w.assign S x).value.2.storage? = some x ↔ ¬ x.ShowsNil) := by
  obtain ⟨st, -, h⟩ := hw.holds
  have hty : st.ty = x.ty := Option.some.inj (h.declared.symm.trans ht)
  obtain ⟨v, hv, hlayers⟩ := Value.convert_copy hx hcopy
  have hput := h.put (x := v) (by rw [hty, Value.ty_of_convert hv])
  have hstorage : (w.put v).storage? = some (x.complete S) := by
    rw [storage?, hput.storage, Value.setChainEnd_eq_layered, hty, hlayers]
  rw [value_assign h, hty, assigned, hv]
  refine ⟨rfl, hstorage, ?_⟩
  rw [hstorage, Option.some.injEq, Value.complete_eq_self_iff]

/-- children behind pointers: the one that is nil becomes an empty node, the other one keeps its nil weight, its nil
child and its hidden mark; without a nil child the copy is the list itself -/
theorem assign_copy_children :
    let child : Ty := .option (.record "Node")
    let leaf : Value := .ptr (.record "Node" [.scalar (.string "a"), .nil (.box (.scalar (.int ⟨false, .w64⟩))),
      Sample.rows [[1], []], .list child [.nil (.record "Node")], .scalar (.bool true)])
    let empty : Value := .ptr (.record "Node" [.scalar (.string ""), .nil (.box (.scalar (.int ⟨false, .w64⟩))),
      Sample.rows [], .list child [], .scalar (.bool false)])
    let w := (locate Sample.schema (.ptr (.list child [leaf, leaf, leaf]))).value
    (w.assign Sample.schema (.ptr (.list child [.nil (.record "Node"), leaf]))).value.1 = .ok () ∧
      (w.assign Sample.schema (.ptr (.list child [.nil (.record "Node"), leaf]))).value.2.storage? =
        some (.ptr (.list child [empty, leaf])) ∧
      (w.assign Sample.schema (.ptr (.list child [leaf]))).value.2.storage? = some (.ptr (.list child [leaf])) := by
  intro child leaf empty w
  have hleaf : WellTyped Sample.schema leaf := by
    refine .ptr (WellTyped.record_iff.2 ⟨rfl, ?_⟩)
    simp only [List.forall_mem_cons]
    refine ⟨.scalar _, .nil _, Sample.wellTyped_rows _, ?_, .scalar _, by simp⟩
    exact WellTyped.list_iff.2 (List.forall_mem_singleton.2 ⟨rfl, .nil _⟩)
  have hlist (xs : List Value) (hxs : ∀ x ∈ xs, x = .nil (.record "Node") ∨ x = leaf) :
      WellTyped Sample.schema (.ptr (.list child xs)) := by
    refine .ptr (WellTyped.list_iff.2 fun x hx => ?_)
    rcases hxs x hx with rfl | rfl
    · exact ⟨rfl, .nil _⟩
    · exact ⟨rfl, hleaf⟩
  have hw : Built Sample.schema w := .locate (hlist _ (by simp))
  have hcopy : Ty.Copyable (.option (.slice child)) := .option (.slice (.option (.record "Node")))
  obtain ⟨hok, hstorage, -⟩ := assign_copy hw (hlist [.nil (.record "Node"), leaf] (by simp)) rfl hcopy
  obtain ⟨-, -, hsame⟩ := assign_copy hw (hlist [leaf] (by simp)) rfl hcopy
  refine ⟨hok, ?_, hsame.2 ?_⟩
  · rw [hstorage]
    cbv
  · rw [← Value.complete_eq_self_iff (S := Sample.schema)]
    cbv

end Wrapper

end DynAssign
