/-
Conversion of a source of any type into the contents of a destination of a given type.

`Value.convert S src t` is what a location of resolved type `t` holds after `src` was assigned to it. Old contents play
no part. The rules, the first that applies:
- a source whose own chain ends in no value, or in one without structure, gives the zero value;
- a list takes the elements of a list one by one, and any other source as its only element;
- a dynamic slot takes the source as it is;
- a source of the destination's type is copied;
- the last element of a list is taken instead of the list, and an empty list gives the zero value;
- a scalar is converted into a scalar;
- the rest is a fault.
Pointers of the source are followed where its contents are needed, and a nil one gives the zero value.

The recursion goes down in the source, and in the type where one source becomes the only element of a list. An element
of a list is converted into the resolved element type and put behind the layers of the declared one.
-/
import DynAssign.Value.Access

namespace DynAssign

namespace Value

/-! ## Leaves -/

/-- a scalar converted into a scalar; every other pair of types is a fault -/
def coerce (src : Value) (t : Ty) : Except Fault Value :=
  match t, src.scalar? with
  | .scalar k, some s => match s.convert? k with
    | some r => .ok (scalar r)
    | none => .error (.coercion s.described k.name)
  | _, _ => .error (.coercion src.ty.fullName t.fullName)

/-- a source that is no list, assigned to a destination that is neither a list nor a dynamic slot -/
def convertLeaf (src : Value) (t : Ty) : Except Fault Value := if src.ty = t then .ok src else src.coerce t

/-- the sources that a list takes from a value: the elements of a list, anything else as the only one -/
def asItems (v : Value) : List Value := v.items?.getD [v]

/-! ## Sizes -/

/-- the size of several sources together -/
noncomputable def totalSize : List Value → Nat
  | [] => 0
  | v :: vs => sizeOf v + totalSize vs

theorem sizeOf_pos (v : Value) : 0 < sizeOf v := by cases v <;> simp +arith

theorem totalSize_lt (e : Ty) (vs : List Value) : totalSize vs < sizeOf (list e vs) := by
  have h : totalSize vs ≤ sizeOf vs := by
    induction vs with
    | nil => simp [totalSize]
    | cons v vs ih => simp_all [totalSize]; omega
  simp; omega

theorem totalSize_asItems_le (v : Value) : totalSize v.asItems ≤ sizeOf v := by
  cases v with
  | list e xs => exact Nat.le_of_lt (totalSize_lt e xs)
  | _ => simp [asItems, items?, totalSize]

theorem sizeOf_getLast?_lt {v x : Value} {vs : List Value} (hv : v.items? = some vs) (hx : vs.getLast? = some x) :
    sizeOf x < sizeOf v := by
  cases v <;> simp [items?] at hv
  subst hv
  have := List.sizeOf_lt_of_mem (List.mem_of_getLast? hx)
  simp; omega

/-! ## Conversion -/

mutual

/-- the contents of a location of resolved type t that src is assigned to -/
def convert (S : Schema) (src : Value) (t : Ty) : Attempt Fault Value :=
  let s := src.concrete
  if S.isVoid s.ty then pure (zero S t)
  else match t with
    | .slice e => match _h : s.content? with
      | none => pure (list e [])
      | some u => list e <$> convertAll S u.asItems 0 e
    | .any => pure (any s)
    | t =>
      if s.ty = t then pure s
      else match _h : s.content? with
        | none => pure (zero S t)
        | some u => match _hu : u.items? with
          | none => liftExcept (u.convertLeaf t)
          | some xs => match _hx : xs.getLast? with
            | none => pure (zero S t)
            | some x => convert S x t
termination_by (sizeOf src, sizeOf t, 0)
decreasing_by
  · have h1 := totalSize_asItems_le u
    have h2 := sizeOf_content?_le _h
    have h3 : sizeOf s ≤ sizeOf src := sizeOf_concrete_le src
    exact Prod.Lex.right' _ (by omega) (Prod.Lex.left _ _ (by simp))
  · have h1 := sizeOf_getLast?_lt _hu _hx
    have h2 := sizeOf_content?_le _h
    have h3 : sizeOf s ≤ sizeOf src := sizeOf_concrete_le src
    exact Prod.Lex.left _ _ (by omega)

/-- sources converted into the elements of a list, the fault of one put at its place -/
def convertAll (S : Schema) (srcs : List Value) (i : Nat) (e : Ty) : Attempt Fault (List Value) :=
  match srcs with
  | [] => pure []
  | src :: rest => do
    Attempt.report (e.optionals.map .allocated)
    let v ← Attempt.inContext (.inElement i) (convert S src e.resolved)
    let vs ← convertAll S rest (i + 1) e
    pure (layered e v :: vs)
termination_by (totalSize srcs, sizeOf e, srcs.length + 1)
decreasing_by
  · have h := e.sizeOf_resolved_le
    refine Prod.Lex.right' _ (by simp [totalSize]) ?_
    exact Prod.Lex.right' _ h (by simp)
  · exact Prod.Lex.left _ _ (by have := sizeOf_pos src; simp [totalSize]; omega)

end

/-! ## The rules, one by one -/

theorem convert_of_isVoid {S : Schema} {src : Value} (h : S.isVoid src.concrete.ty = true) (t : Ty) :
    convert S src t = pure (zero S t) := by
  rw [convert.eq_def]
  simp [h]

theorem convert_slice {S : Schema} {src : Value} (h : S.isVoid src.concrete.ty = false) (e : Ty) :
    convert S src (.slice e) = match src.concrete.content? with
      | none => pure (list e [])
      | some u => list e <$> convertAll S u.asItems 0 e := by
  rw [convert]
  simp only [h, Bool.false_eq_true, if_false]
  split <;> simp_all

theorem convert_any {S : Schema} {src : Value} (h : S.isVoid src.concrete.ty = false) :
    convert S src .any = pure (any src.concrete) := by
  rw [convert]
  simp [h]

theorem convert_single {S : Schema} {src : Value} {t : Ty} (h : S.isVoid src.concrete.ty = false)
    (hslice : ∀ e, t ≠ .slice e) (hany : t ≠ .any) :
    convert S src t =
      if src.concrete.ty = t then pure src.concrete
      else match src.concrete.content? with
        | none => pure (zero S t)
        | some u => match u.items? with
          | none => liftExcept (u.convertLeaf t)
          | some xs => match xs.getLast? with
            | none => pure (zero S t)
            | some x => convert S x t := by
  rw [convert]
  · simp only [h, Bool.false_eq_true, if_false]
    split
    · rfl
    · split <;> simp_all
      split <;> simp_all
      split <;> simp_all
  · exact hslice
  · exact hany

/-! ## Types -/

theorem ty_of_coerce {src r : Value} {t : Ty} (h : src.coerce t = .ok r) : r.ty = t := by
  unfold coerce at h
  split at h
  · split at h
    · rename_i hr
      cases h
      rw [ty, Scalar.kind_of_convert? hr]
    · cases h
  · cases h

theorem ty_of_convertLeaf {src r : Value} {t : Ty} (h : src.convertLeaf t = .ok r) : r.ty = t := by
  unfold convertLeaf at h
  split at h
  · cases h
    assumption
  · exact ty_of_coerce h

theorem ty_of_convert_slice {S : Schema} {src r : Value} {e : Ty} (hvoid : S.isVoid src.concrete.ty = false)
    (h : (convert S src (.slice e)).run.value = .ok r) : r.ty = .slice e := by
  rw [convert_slice hvoid] at h
  split at h
  · cases h
    rfl
  · obtain ⟨xs, -, rfl⟩ := Attempt.map_eq_ok.1 h
    rfl

theorem ty_of_convert {S : Schema} {src r : Value} {t : Ty} (h : (convert S src t).run.value = .ok r) : r.ty = t := by
  by_cases hvoid : S.isVoid src.concrete.ty
  · rw [convert_of_isVoid hvoid] at h
    cases h
    exact ty_zero S t
  have hvoid : S.isVoid src.concrete.ty = false := by simpa using hvoid
  by_cases hslice : ∃ e, t = .slice e
  · obtain ⟨e, rfl⟩ := hslice
    exact ty_of_convert_slice hvoid h
  by_cases hany : t = .any
  · subst hany
    rw [convert_any hvoid] at h
    cases h
    rfl
  rw [convert_single hvoid (fun e he => hslice ⟨e, he⟩) hany] at h
  split at h
  · cases h
    assumption
  split at h
  · cases h
    exact ty_zero S t
  rename_i u hu
  split at h
  · rw [Attempt.value_liftExcept] at h
    exact ty_of_convertLeaf h
  rename_i xs hxs
  split at h
  · cases h
    exact ty_zero S t
  rename_i x hx
  have hlt : sizeOf x < sizeOf src :=
    Nat.lt_of_lt_of_le (sizeOf_getLast?_lt hxs hx) (Nat.le_trans (sizeOf_content?_le hu) (sizeOf_concrete_le src))
  exact ty_of_convert h
termination_by sizeOf src

theorem convertAll_cons_eq_ok {S : Schema} {src : Value} {rest ys : List Value} {i : Nat} {e : Ty} :
    (convertAll S (src :: rest) i e).run.value = .ok ys ↔
      ∃ v vs, (convert S src e.resolved).run.value = .ok v ∧ (convertAll S rest (i + 1) e).run.value = .ok vs ∧
        layered e v :: vs = ys := by
  rw [convertAll, Attempt.bind_eq_ok]
  simp only [Attempt.value_report, Except.ok.injEq, Attempt.bind_eq_ok, Attempt.inContext_eq_ok, Attempt.value_pure]
  constructor
  · rintro ⟨_, -, v, hv, vs, hvs, h⟩
    exact ⟨v, vs, hv, hvs, h⟩
  · rintro ⟨v, vs, hv, hvs, h⟩
    exact ⟨(), trivial, v, hv, vs, hvs, h⟩

theorem convertAll_cons_eq_error {S : Schema} {src : Value} {rest : List Value} {i : Nat} {elem : Ty} {e : Fault} :
    (convertAll S (src :: rest) i elem).run.value = .error e ↔
      (∃ inner, (convert S src elem.resolved).run.value = .error inner ∧ e = .inElement i inner) ∨
        (∃ v, (convert S src elem.resolved).run.value = .ok v) ∧
          (convertAll S rest (i + 1) elem).run.value = .error e := by
  rw [convertAll, Attempt.bind_eq_error]
  simp only [Attempt.value_report, Attempt.bind_eq_error, Attempt.inContext_eq_error, Attempt.inContext_eq_ok,
    Attempt.value_pure]
  constructor
  · rintro (h | ⟨_, -, h | ⟨v, hv, h | ⟨vs, -, h⟩⟩⟩)
    · cases h
    · exact .inl h
    · exact .inr ⟨⟨v, hv⟩, h⟩
    · cases h
  · rintro (h | ⟨⟨v, hv⟩, h⟩)
    · exact .inr ⟨(), trivial, .inl h⟩
    · exact .inr ⟨(), trivial, .inr ⟨v, hv, .inl h⟩⟩

theorem ty_of_mem_convertAll {S : Schema} {srcs ys : List Value} {i : Nat} {e : Ty}
    (h : (convertAll S srcs i e).run.value = .ok ys) : ∀ y ∈ ys, y.ty = e := by
  induction srcs generalizing i ys with
  | nil =>
    rw [convertAll] at h
    cases h
    simp
  | cons src rest ih =>
    obtain ⟨v, vs, hv, hvs, rfl⟩ := convertAll_cons_eq_ok.1 h
    rw [List.forall_mem_cons]
    exact ⟨ty_layered (ty_of_convert hv), ih hvs⟩

end Value

end DynAssign
