/-
Sources behind layers of indirection.

A source may lie behind any number of pointers and dynamic slots. `Layer` is one layer, `Value.behind` puts a stack of
them around a value. Assignment looks through the stack: dynamic slots first, then the classification of what is
found by its declared type, then pointers and dynamic slots in any order.

So one order of layers shows. Where a dynamic slot lies behind a pointer, the chain of declared types ends in the
slot, nothing is known of a value behind it, and the destination is reset (`Wrapper.assign_behind_pointer_slot`).
Every other stack is transparent. Main statement: `Wrapper.assign_behind`.
-/
import DynAssign.Proofs.Assign

namespace DynAssign

/-- a layer that can be put around a source; none of them is nil -/
inductive Layer where
  /-- an optional pointer -/
  | ptr
  | box
  /-- a dynamic slot -/
  | any
deriving DecidableEq, Repr

/-- a value with one layer around it -/
def Layer.around : Layer → Value → Value
  | ptr, v => .ptr v
  | box, v => .box v
  | any, v => .any v

namespace Value

/-- a value behind a stack of layers, the outermost first -/
def behind (layers : List Layer) (v : Value) : Value := layers.foldr Layer.around v

@[simp] theorem behind_nil (v : Value) : v.behind [] = v := rfl

@[simp] theorem behind_cons (layer : Layer) (layers : List Layer) (v : Value) :
    v.behind (layer :: layers) = layer.around (v.behind layers) := rfl

/-! ## Looking through -/

theorem concrete_of_ty_ne {v : Value} (h : v.ty ≠ .any) : v.concrete = v := by
  cases v with
  | any v => exact absurd rfl h
  | _ => rfl

theorem concrete_of_resolved_ne {v : Value} (h : v.ty.resolved ≠ .any) : v.concrete = v :=
  concrete_of_ty_ne fun hty => h (by rw [hty]; rfl)

@[simp] theorem content?_concrete (v : Value) : v.concrete.content? = v.content? := by
  fun_induction concrete v with
  | case1 v ih => rw [ih, content?]
  | case2 => rfl

theorem content?_behind (layers : List Layer) (v : Value) : (v.behind layers).content? = v.content? := by
  induction layers with
  | nil => rfl
  | cons layer layers ih =>
    rw [behind_cons, ← ih]
    cases layer <;> rfl

/-- the chain of declared types ends where that of the bare value ends, unless it ends in a dynamic slot -/
theorem resolved_concrete_behind {layers : List Layer} {v : Value}
    (h : (v.behind layers).concrete.ty.resolved ≠ .any) :
    (v.behind layers).concrete.ty.resolved = v.concrete.ty.resolved := by
  induction layers with
  | nil => rfl
  | cons layer layers ih =>
    rw [behind_cons] at h ⊢
    -- a pointer ends the walk through dynamic slots, so no slot may come right behind it
    have hpointer (hne : (v.behind layers).ty.resolved ≠ .any) :
        (v.behind layers).ty.resolved = v.concrete.ty.resolved := by
      have hty : (v.behind layers).ty ≠ .any := by
        intro hany
        rw [hany] at hne
        exact hne rfl
      have hsame := concrete_of_ty_ne hty
      rw [hsame] at ih
      exact ih hne
    cases layer with
    | ptr => exact hpointer h
    | box => exact hpointer h
    | any => exact ih h

/-! ## Conversion -/

/-- into a destination that is neither a list nor a dynamic slot, only the value at the end of the walk counts -/
theorem convert_content {S : Schema} {src : Value} {t : Ty} (h : S.isVoid src.concrete.ty = false)
    (hslice : ∀ e, t ≠ .slice e) (hany : t ≠ .any) (ht : t.isPointer = false) :
    convert S src t = match src.content? with
      | none => pure (zero S t)
      | some u => match u.items? with
        | none => liftExcept (u.convertLeaf t)
        | some xs => match xs.getLast? with
          | none => pure (zero S t)
          | some x => convert S x t := by
  rw [convert_single h hslice hany, content?_concrete]
  by_cases hty : src.concrete.ty = t
  · -- a value of the type asked for lies at the end of the walk itself
    have hcontent : src.content? = some src.concrete := by
      rw [← content?_concrete]
      generalize src.concrete = s at hty
      subst hty
      cases s <;> simp_all [content?, ty, Ty.isPointer]
    have hitems : src.concrete.items? = none := by
      generalize src.concrete = s at hty
      subst hty
      cases s <;> simp_all [items?, ty]
    have hleaf : liftExcept (src.concrete.convertLeaf t) = (pure src.concrete : Attempt Fault Value) :=
      congrArg liftExcept (if_pos hty)
    simp only [if_pos hty, hcontent, hitems, hleaf]
  · exact if_neg hty

/-- Sources that are classified alike and have the same value at their ends are converted alike. Only a dynamic slot
keeps more of a source than that. -/
theorem convert_congr {S : Schema} {src src' : Value} {t : Ty} (ht : t.isPointer = false) (hany : t ≠ .any)
    (hresolved : src.concrete.ty.resolved = src'.concrete.ty.resolved) (hcontent : src.content? = src'.content?) :
    convert S src t = convert S src' t := by
  have hsame : S.isVoid src.concrete.ty = S.isVoid src'.concrete.ty := by
    rw [Schema.isVoid, Schema.isVoid, ← S.descriptor_resolved, hresolved, S.descriptor_resolved]
  cases hvoid : S.isVoid src'.concrete.ty with
  | true => rw [convert_of_isVoid hvoid, convert_of_isVoid (hsame.trans hvoid)]
  | false =>
    by_cases hslice : ∃ e, t = .slice e
    · obtain ⟨e, rfl⟩ := hslice
      rw [convert_slice hvoid, convert_slice (hsame.trans hvoid), content?_concrete, content?_concrete, hcontent]
    · have hslice : ∀ e, t ≠ .slice e := fun e he => hslice ⟨e, he⟩
      rw [convert_content hvoid hslice hany ht, convert_content (hsame.trans hvoid) hslice hany ht, hcontent]

end Value

namespace Wrapper

/-- **Layers around a source are transparent, except for a dynamic slot behind a pointer.** On every writable wrapper
whose contents are no dynamic slot, a source behind any stack of layers does what the bare source does: the same
outcome, contents and allocations. The exception are stacks that leave a dynamic slot behind a pointer, also a slot
of the source itself: the destination is reset then. -/
theorem assign_behind {S : Schema} {w : Wrapper} (hw : Built S w) {t : Ty} (ht : w.declared = some t)
    (hany : t.resolved ≠ .any) (src : Value) (layers : List Layer) :
    w.assign S (src.behind layers) =
      if (src.behind layers).concrete.ty.resolved = .any then .ok (w.put (.zero S t.resolved))
      else w.assign S src := by
  obtain ⟨st, -, h⟩ := hw.holds
  obtain rfl : st.ty = t := Option.some.inj (h.declared.symm.trans ht)
  split
  · next hslot =>
    have hvoid : S.isVoid (src.behind layers).concrete.ty = true := (S.isVoid_iff _).2 (.inr (.inl hslot))
    exact assign_of_isVoid h hvoid
  · next hne =>
    have hconvert := Value.convert_congr (S := S) (st.ty.resolved_isPointer) hany
      (Value.resolved_concrete_behind hne) (Value.content?_behind layers src)
    rw [assign_eq_store h, assign_eq_store h, hconvert]

/-- rows from texts: a pointer behind a dynamic slot and a box behind that do not show, not even in the fault; a dynamic
slot behind a box leaves no rows -/
theorem assign_behind_rows :
    let texts := Value.list (.scalar .string) [.scalar (.string "1"), .scalar (.string "x")]
    let w := (locate Sample.schema (Sample.rows [[1, 2], [3]])).value
    let fault := Fault.inElement 1 (.inElement 0 (.coercion "\"x\"" "u8"))
    w.assign Sample.schema (texts.behind [.any, .ptr, .box]) = w.assign Sample.schema texts ∧
      (w.assign Sample.schema texts).value.1 = .error fault ∧
      w.assign Sample.schema (texts.behind [.box, .any, .ptr]) = .ok (w.put (.list (.slice Sample.byte) [])) := by
  intro texts w fault
  have hw : Built Sample.schema w := .locate (Sample.wellTyped_rows [[1, 2], [3]])
  have hall (layers : List Layer) := assign_behind hw (t := .slice (.slice Sample.byte)) rfl (by simp [Ty.resolved])
    texts layers
  have htransparent := (hall [.any, .ptr, .box]).trans (if_neg (by decide))
  have hslot := (hall [.box, .any, .ptr]).trans (if_pos rfl)
  have hzero : Value.zero Sample.schema (.slice (.slice Sample.byte)) = .list (.slice Sample.byte) [] := by
    rw [Value.zero]
  exact ⟨htransparent, by cbv, by rw [← hzero]; exact hslot⟩

/-- a number is lost behind a dynamic slot behind a pointer: without the two layers it is assigned -/
theorem assign_behind_pointer_slot :
    let five := Value.scalar (.ofInt ⟨true, .w32⟩ 5)
    let w := (locate Sample.schema (.scalar (.ofInt ⟨true, .w32⟩ 17))).value
    (w.assign Sample.schema (five.behind [.ptr, .any])).value.2.contents? ≠
      (w.assign Sample.schema five).value.2.contents? := by
  intro five w
  have hbare : (w.assign Sample.schema five).value.2.contents? = some five := by cbv
  have hlost : (w.assign Sample.schema (five.behind [.ptr, .any])).value.2.contents? =
      some (.scalar (.ofInt ⟨true, .w32⟩ 0)) := by cbv
  rw [hbare, hlost]
  simp only [five, ne_eq, Option.some.injEq, Value.scalar.injEq]
  decide

end Wrapper

end DynAssign
