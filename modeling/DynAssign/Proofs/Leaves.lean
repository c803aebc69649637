/-
The leaf of a source, which is all that a destination sees unless it is a list or a dynamic slot.

Such a destination takes the last element of a list instead of the list, whatever the list is nested in and whatever
stands in front of the element. `Value.leaf?` repeats that until it meets something that is no list. Layers of
indirection around a list or an element do not count, and where a source offers nothing there is no leaf.

Main statement: `Wrapper.assign_leaf`, from the same on conversion (`Value.convert_leaf`).
-/
import DynAssign.Proofs.Elements

namespace DynAssign

namespace Value

/-- The last element of a list, of which again the last element, and so on, up to something that is no list. There is
none if a list on the way is empty, or offers nothing. -/
def leaf? (S : Schema) (src : Value) : Option Value :=
  match _h : src.offered? S with
  | none => none
  | some u => match _hu : u.items? with
    | none => some u
    | some xs => match _hx : xs.getLast? with
      | none => none
      | some x => leaf? S x
termination_by sizeOf src
decreasing_by exact Nat.lt_of_lt_of_le (sizeOf_getLast?_lt _hu _hx) (sizeOf_offered?_le _h)

section

/-- the leaf of a list is that of its last element, whatever stands in front of it -/
theorem leaf?_concat (S : Schema) (e : Ty) (xs : List Value) (x : Value) :
    (list e (xs ++ [x])).leaf? S = x.leaf? S := by
  have hoffered : (list e (xs ++ [x])).offered? S = some (list e (xs ++ [x])) := rfl
  have hitems : (list e (xs ++ [x])).items? = some (xs ++ [x]) := rfl
  rw [leaf?]
  split
  · next h => simp [hoffered] at h
  · next u h =>
    obtain rfl := Option.some.inj (hoffered.symm.trans h)
    split
    · next hu => simp [hitems] at hu
    · next ys hu =>
      obtain rfl := Option.some.inj (hitems.symm.trans hu)
      split
      · next hx => simp at hx
      · next y hx =>
        rw [List.getLast?_concat, Option.some.injEq] at hx
        rw [hx]

variable {S : Schema} {t : Ty}

/-- into a destination that is neither a list nor a dynamic slot, only what is offered counts -/
theorem convert_offered (src : Value) (hslice : ∀ e, t ≠ .slice e) (hany : t ≠ .any) (ht : t.isPointer = false) :
    convert S src t = match src.offered? S with
      | none => pure (zero S t)
      | some u => match u.items? with
        | none => liftExcept (u.convertLeaf t)
        | some xs => match xs.getLast? with
          | none => pure (zero S t)
          | some x => convert S x t := by
  cases hvoid : S.isVoid src.concrete.ty with
  | true => rw [convert_of_isVoid hvoid, offered?_of_isVoid hvoid]
  | false =>
    rw [offered?_of_not_isVoid hvoid]
    exact convert_content hvoid hslice hany ht

/-- **A conversion sees the leaf only.** -/
theorem convert_leaf (src : Value) (hslice : ∀ e, t ≠ .slice e) (hany : t ≠ .any) (ht : t.isPointer = false) :
    convert S src t = match src.leaf? S with
      | none => pure (zero S t)
      | some u => convert S u t := by
  fun_induction leaf? S src with
  | case1 src h => rw [convert_offered src hslice hany ht, h]
  | case2 src u h hu => simp only [convert_offered _ hslice hany ht, h, offered?_self h, hu]
  | case3 src u h xs hu hx => simp only [convert_offered _ hslice hany ht, h, hu, hx]
  | case4 src u h xs hu x hx ih =>
    rw [convert_offered src hslice hany ht, h]
    simp only [hu, hx, ih]

theorem of_leaf? {src u : Value} (h : src.leaf? S = some u) : u.offered? S = some u ∧ u.items? = none := by
  fun_induction leaf? S src with
  | case1 src hsrc => cases h
  | case2 src v hsrc hv =>
    obtain rfl := Option.some.inj h
    exact ⟨offered?_self hsrc, hv⟩
  | case3 src v hsrc xs hv hx => cases h
  | case4 src v hsrc xs hv x hx ih => exact ih h

theorem convert_of_leaf? {src u : Value} (h : src.leaf? S = some u) (hslice : ∀ e, t ≠ .slice e) (hany : t ≠ .any)
    (ht : t.isPointer = false) : convert S src t = liftExcept (u.convertLeaf t) := by
  obtain ⟨hoffered, hitems⟩ := of_leaf? h
  rw [convert_leaf src hslice hany ht, h]
  simp only [convert_offered u hslice hany ht, hoffered, hitems]

end

end Value

namespace Wrapper

/-- **A destination that is no list sees the leaf of a source only.** On every writable wrapper whose contents are
neither a list nor a dynamic slot, a source without a leaf leaves the zero value, and any other does what its leaf does:
the same outcome, contents and allocations. So two sources of the same leaf do the same, whatever else is in them; what
stands in front of a source in a list plays no part. -/
theorem assign_leaf {S : Schema} {w : Wrapper} (hw : Built S w) {t : Ty} (ht : w.declared = some t)
    (hslice : ∀ e, t.resolved ≠ .slice e) (hany : t.resolved ≠ .any) (src : Value) :
    (src.leaf? S = none → (w.assign S src).value.1 = .ok () ∧
      (w.assign S src).value.2.contents? = some (.zero S t.resolved)) ∧
    (∀ leaf, src.leaf? S = some leaf → w.assign S src = w.assign S leaf) ∧
    (∀ src', src'.leaf? S = src.leaf? S → w.assign S src' = w.assign S src) ∧
    ∀ e xs, w.assign S (.list e (xs ++ [src])) = w.assign S src := by
  obtain ⟨st, -, h⟩ := hw.holds
  obtain rfl : st.ty = t := Option.some.inj (h.declared.symm.trans ht)
  have hconvert (src : Value) := Value.convert_leaf (S := S) src hslice hany st.ty.resolved_isPointer
  have hsame {src src' : Value} (hleaf : src'.leaf? S = src.leaf? S) : w.assign S src' = w.assign S src := by
    rw [assign_eq_store h, assign_eq_store h, hconvert src', hconvert src, hleaf]
  refine ⟨?_, ?_, fun src' hleaf => hsame hleaf, fun e xs => hsame (Value.leaf?_concat S e xs src)⟩
  · intro hnone
    have hput := h.contents_put (Value.ty_zero S st.ty.resolved)
    rw [assign_eq_store h, hconvert src, hnone]
    exact ⟨rfl, hput⟩
  · intro leaf hleaf
    rw [assign_eq_store h, assign_eq_store h, hconvert src, hleaf]

/-- A weight behind two pointers, from texts: the last text of the last row counts, behind whatever pointer, and the
other rows need be no numbers. If the last row is empty, the weight is zero. -/
theorem assign_leaf_weight :
    let weight : Ty := .option (.box (.scalar (.int ⟨false, .w64⟩)))
    let row (s : String) : Value := .list .literal [.literal "heavy", .literal s]
    let rows (x : Value) : Value := .list .any [.any (row "light"), .any (.ptr x)]
    let w := (locate Sample.schema (.zero Sample.schema weight)).value
    (rows (row "17")).leaf? Sample.schema = some (.literal "17") ∧
      w.assign Sample.schema (rows (row "17")) = w.assign Sample.schema (.literal "17") ∧
      (w.assign Sample.schema (rows (.list .literal []))).value.2.contents? =
        some (.scalar (.ofInt ⟨false, .w64⟩ 0)) := by
  intro weight row rows w
  have hw : Built Sample.schema w := .locate (Value.wellTyped_zero _ _)
  have hleaf : (rows (row "17")).leaf? Sample.schema = some (.literal "17") := by cbv
  have hnone : (rows (.list .literal [])).leaf? Sample.schema = none := by cbv
  have hdeclared : w.declared = some weight := by
    rw [(Holds.locate Sample.schema _).declared, Value.ty_allocate, Value.ty_zero]
  have hall := assign_leaf hw hdeclared (by simp [weight, Ty.resolved]) (by simp [weight, Ty.resolved])
  have hzero : Value.zero Sample.schema weight.resolved = .scalar (.ofInt ⟨false, .w64⟩ 0) := by cbv
  rw [← hzero]
  exact ⟨hleaf, (hall _).2.1 _ hleaf, ((hall _).1 hnone).2⟩

end Wrapper

end DynAssign
