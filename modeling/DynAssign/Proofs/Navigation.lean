/-
Navigation along paths of field indexes.

A path is followed one field at a time, through the pointers of each, and the declared types decide how far it gets:
`Schema.typeAt?` is the type at the end of a path, and `Schema.Refuses` lists the two ways in which an index cannot be
followed at a type. The first refusal is the fault of the whole path. Until then the nil pointers of the fields on the
way are allocated, and nothing else is (`AllocatedAlong`).

- `Value.descend_ok_of_typeAt?` and `Value.descend_error_of_refuses`: a descent succeeds or fails by the declared types,
  by induction on the path and on the place of the refusal.
- `Value.allocatedAlong_descend`: what a descent changes, on success and on failure.
- `Value.descend_append`: a descent along two paths in a row is a descent along the second from where the first ends,
  written back there.
- `Wrapper.fieldAt_navigates`: the main statement, for every writable wrapper.
-/
import DynAssign.Proofs.Allocation
import DynAssign.Proofs.Steps
import DynAssign.Proofs.Untouched

namespace DynAssign

/-! ## Valid paths -/

namespace Schema

/-- behind its pointers the type is a record with more visible fields than the index -/
def HasField (S : Schema) (t : Ty) (i : Nat) : Prop := ∃ name, t.resolved = .record name ∧ i < (S.visible name).length

/-- the index cannot be followed at the type, and this is the fault -/
inductive Refuses (S : Schema) : Ty → Nat → Fault → Prop where
  /-- behind its pointers the type is no record -/
  | notRecord {t : Ty} (i : Nat) (h : ∀ name, t.resolved ≠ .record name) :
    Refuses S t i (.invalidPath ("cannot descend into field " ++ toString i ++ " of " ++ t.resolved.fullName ++
      ", which is not a struct"))
  /-- the record has fewer visible fields -/
  | outOfRange {t : Ty} {i : Nat} {name : String} (h : t.resolved = .record name) (hi : (S.visible name).length ≤ i) :
    Refuses S t i (.indexOutOfRange i (S.visible name).length name)

variable {S : Schema} {t u : Ty} {i : Nat} {path : List Nat}

theorem exists_of_typeAt?_cons (h : S.typeAt? t (i :: path) = some u) :
    ∃ name f, t.resolved = .record name ∧ (S.visible name)[i]? = some f ∧ S.typeAt? f.ty path = some u := by
  rw [typeAt?] at h
  split at h
  · next name hname =>
    obtain ⟨f, hf, hu⟩ := Option.bind_eq_some_iff.1 h
    exact ⟨name, f, hname, hf, hu⟩
  · cases h

theorem typeAt?_cons {name : String} {f : VisibleField} (ht : t.resolved = .record name)
    (hf : (S.visible name)[i]? = some f) (path : List Nat) : S.typeAt? t (i :: path) = S.typeAt? f.ty path := by
  rw [typeAt?, ht]
  simp [hf]

theorem typeAt?_resolved (S : Schema) (t : Ty) (i : Nat) (path : List Nat) :
    S.typeAt? t.resolved (i :: path) = S.typeAt? t (i :: path) := by
  rw [typeAt?, typeAt?, Ty.resolved_resolved]

/-- a path leads to a type iff each of its indexes can be followed where the ones in front lead -/
theorem exists_typeAt?_iff :
    (∃ u, S.typeAt? t path = some u) ↔
      ∀ k i, path[k]? = some i → ∃ u, S.typeAt? t (path.take k) = some u ∧ S.HasField u i := by
  induction path generalizing t with
  | nil => simp [typeAt?]
  | cons i path ih =>
    constructor
    · rintro ⟨u, hu⟩ k j hj
      obtain ⟨name, f, hname, hf, hrest⟩ := exists_of_typeAt?_cons hu
      cases k with
      | zero =>
        obtain rfl : i = j := by simpa using hj
        exact ⟨t, rfl, name, hname, (List.getElem?_eq_some_iff.1 hf).1⟩
      | succ k =>
        rw [List.take_succ_cons, typeAt?_cons hname hf]
        exact ih.1 ⟨u, hrest⟩ k j (by simpa using hj)
    · intro h
      obtain ⟨_, ht, name, hname, hlt⟩ := h 0 i rfl
      cases ht
      have hf : (S.visible name)[i]? = some (S.visible name)[i] := List.getElem?_eq_getElem hlt
      rw [typeAt?_cons hname hf]
      refine ih.2 fun k j hj => ?_
      have hstep := h (k + 1) j (by simpa using hj)
      rwa [List.take_succ_cons, typeAt?_cons hname hf] at hstep

end Schema

namespace Value

variable {S : Schema} {v x : Value} {t u : Ty} {i : Nat} {path : List Nat} {e : Fault}

/-! ### Descents by type -/

theorem exists_field?_of_visible {name : String} {f : VisibleField} (hv : WellTyped S v) (hty : v.ty = .record name)
    (hf : (S.visible name)[i]? = some f) : ∃ x, v.field? S i = some (f, x) ∧ x.ty = f.ty ∧ WellTyped S x := by
  obtain ⟨vs, rfl⟩ := eq_record_of_ty hty
  have hfst := map_fst_visibleWith (i := 0) (p := 0) hv.length_fields
  rw [← Schema.visible] at hfst
  rw [← hfst, List.getElem?_map, Option.map_eq_some_iff] at hf
  obtain ⟨⟨f, x⟩, hget, rfl⟩ := hf
  have hfound : (record name vs).field? S i = some (f, x) := by rw [field?, fields?_record, Option.bind_some, hget]
  obtain ⟨hx, hxty⟩ := wellTyped_of_field? hv hfound
  exact ⟨x, hfound, hxty, hx⟩

/-- where the type refuses the index, the descent fails and changes nothing -/
theorem descend_of_refuses (hv : WellTyped S v) (hty : v.ty = t.resolved) (h : S.Refuses t i e) (path : List Nat) :
    (v.descend S i path).value = (.error e, v) := by
  cases h with
  | notRecord h =>
    have hfs : v.fields? S = none := by
      cases v with
      | record name vs => exact absurd hty.symm (h name)
      | _ => rfl
    rw [descend, hfs, ← hty]
    rfl
  | outOfRange h hi =>
    obtain ⟨vs, rfl⟩ := eq_record_of_ty (hty.trans h)
    have hlen := congrArg List.length (map_fst_visibleWith (i := 0) (p := 0) hv.length_fields)
    rw [← Schema.visible, List.length_map] at hlen
    rw [descend, fields?_record]
    simp only [List.getElem?_eq_none (hlen ▸ hi), hlen]
    rfl

theorem descend_ok_of_typeAt? (hv : WellTyped S v) (hty : v.ty = t.resolved)
    (h : S.typeAt? t (i :: path) = some u) : ∃ x, (v.descend S i path).value.1 = .ok x := by
  induction path generalizing v t i with
  | nil =>
    obtain ⟨name, f, hname, hf, -⟩ := Schema.exists_of_typeAt?_cons h
    obtain ⟨x, hx, -⟩ := exists_field?_of_visible hv (hty.trans hname) hf
    exact ⟨_, by rw [descend_last hx]⟩
  | cons j path ih =>
    obtain ⟨name, f, hname, hf, hrest⟩ := Schema.exists_of_typeAt?_cons h
    obtain ⟨x, hx, hxty, hxt⟩ := exists_field?_of_visible hv (hty.trans hname) hf
    rw [descend_next hx]
    exact ih (wellTyped_chainEnd (wellTyped_allocate hxt)) (by rw [ty_chainEnd_allocate, hxty]) hrest

theorem descend_error_of_refuses {k j : Nat} (hv : WellTyped S v) (hty : v.ty = t.resolved)
    (hj : (i :: path)[k]? = some j) (hu : S.typeAt? t ((i :: path).take k) = some u) (h : S.Refuses u j e) :
    (v.descend S i path).value.1 = .error e := by
  induction k generalizing v t i path with
  | zero =>
    obtain rfl : i = j := by simpa using hj
    obtain rfl : t = u := by simpa [Schema.typeAt?] using hu
    rw [descend_of_refuses hv hty h]
  | succ k ih =>
    rw [List.take_succ_cons] at hu
    obtain ⟨name, f, hname, hf, hrest⟩ := Schema.exists_of_typeAt?_cons hu
    obtain ⟨x, hx, hxty, hxt⟩ := exists_field?_of_visible hv (hty.trans hname) hf
    cases path with
    | nil => simp at hj
    | cons i' path =>
      rw [descend_next hx]
      exact ih (wellTyped_chainEnd (wellTyped_allocate hxt)) (by rw [ty_chainEnd_allocate, hxty]) (by simpa using hj)
        hrest

end Value

/-! ## What navigation changes -/

/-- The second value is the first with the nil pointers allocated on the chains of the fields along a path, as far as
there are such fields. In each record on the way the other fields, hidden or not, are the same. -/
inductive AllocatedAlong (S : Schema) : List Nat → Value → Value → Prop where
  | done (v : Value) : AllocatedAlong S [] v v
  | off {v : Value} {i : Nat} (path : List Nat) (h : v.field? S i = none) : AllocatedAlong S (i :: path) v v
  | field {name : String} {vs vs' : List Value} {i : Nat} {path : List Nat} {f : VisibleField} {x y : Value}
    (hf : (S.visible name)[i]? = some f) (hx : vs[f.position]? = some x)
    (hothers : ∀ p, p ≠ f.position → vs'[p]? = vs[p]?)
    (hx' : vs'[f.position]? = some ((x.allocate S).value.setChainEnd y))
    (hrest : AllocatedAlong S path (x.allocate S).value.chainEnd y) :
    AllocatedAlong S (i :: path) (.record name vs) (.record name vs')

namespace Value

variable {S : Schema} {v : Value}

theorem setPosition_of_field? {i : Nat} {f : VisibleField} {x : Value} (hv : WellTyped S v)
    (h : v.field? S i = some (f, x)) (z : Value) :
    ∃ name vs vs', v = .record name vs ∧ v.setPosition f.position z = .record name vs' ∧
      (S.visible name)[i]? = some f ∧ vs[f.position]? = some x ∧ (∀ p, p ≠ f.position → vs'[p]? = vs[p]?) ∧
      vs'[f.position]? = some z := by
  obtain ⟨name, vs, rfl⟩ := eq_record_of_field? h
  obtain ⟨hf, hx⟩ := (field?_iff hv.length_fields).1 h
  refine ⟨name, vs, vs.set f.position z, rfl, rfl, hf, hx, fun p hp => ?_, ?_⟩
  · exact List.getElem?_set_ne (Ne.symm hp)
  · exact List.getElem?_set_self (List.getElem?_eq_some_iff.1 hx).1

/-- **A descent allocates along its path.** -/
theorem allocatedAlong_descend (hv : WellTyped S v) (i : Nat) (path : List Nat) :
    AllocatedAlong S (i :: path) v (v.descend S i path).value.2 := by
  induction path generalizing v i with
  | nil =>
    cases hfound : v.field? S i with
    | none =>
      rw [(descend_of_no_field hfound []).1]
      exact .off [] hfound
    | some fx =>
      obtain ⟨f, x⟩ := fx
      rw [descend_last hfound]
      obtain ⟨name, vs, vs', rfl, hset, hf, hx, hothers, hx'⟩ := setPosition_of_field? hv hfound (x.allocate S).value
      rw [← setChainEnd_chainEnd (isSettled_allocate S x)] at hx'
      rw [hset]
      exact .field hf hx hothers hx' (.done _)
  | cons j path ih =>
    cases hfound : v.field? S i with
    | none =>
      rw [(descend_of_no_field hfound (j :: path)).1]
      exact .off (j :: path) hfound
    | some fx =>
      obtain ⟨f, x⟩ := fx
      rw [descend_next hfound]
      obtain ⟨name, vs, vs', rfl, hset, hf, hx, hothers, hx'⟩ := setPosition_of_field? hv hfound _
      rw [hset]
      exact .field hf hx hothers hx' (ih (wellTyped_chainEnd (wellTyped_allocate (wellTyped_of_field? hv hfound).1)) j)

end Value

/-! ## Two paths in a row -/

namespace Value

variable {S : Schema} {v x : Value} {i : Nat} {f : VisibleField}

theorem setPosition_setPosition (v : Value) (position : Nat) (x y : Value) :
    (v.setPosition position x).setPosition position y = v.setPosition position y := by
  cases v with
  | record name vs => rw [setPosition, setPosition, setPosition, List.set_set]
  | _ => rfl

/-- where there is no field, neither the rest of the path nor what would follow matters -/
theorem descend_eq_of_no_field (h : v.field? S i = none) (path path' : List Nat)
    (next : Value → Value → Traced (Except Fault Value × Value)) :
    v.descend S i path = (do
      match ← v.descend S i path' with
      | (.error e, v) => pure (.error e, v)
      | (.ok x, v) => next x v) := by
  cases hfs : v.fields? S with
  | none => rw [descend, hfs, descend, hfs, pure_bind]
  | some fs =>
    rw [field?, hfs, Option.bind_some] at h
    rw [descend, hfs, descend, hfs]
    simp only [h, pure_bind]

theorem putAt_setPosition (hv : WellTyped S v) (h : v.field? S i = some (f, x)) (y z : Value) :
    (v.setPosition f.position y).putAt S z [i] = v.setPosition f.position z := by
  rw [putAt, field?_setPosition hv h]
  exact setPosition_setPosition v _ y z

theorem putAt_setChainEnd (hv : WellTyped S v) (h : v.field? S i = some (f, x)) (a z : Value) {y : Value}
    (hy : y.isPointer = false) (j : Nat) (path : List Nat) :
    (v.setPosition f.position (a.setChainEnd y)).putAt S z (i :: j :: path) =
      v.setPosition f.position (a.setChainEnd (y.putAt S z (j :: path))) := by
  rw [putAt, field?_setPosition hv h]
  · simp only [chainEnd_setChainEnd a hy, setChainEnd_setChainEnd a hy]
    exact setPosition_setPosition v _ _ _
  · simp

/-- **A descent along two paths in a row.** It goes along the first, along the second from what was found there, and
what the second descent leaves is written back where the first ended. -/
theorem descend_append {v : Value} (hv : WellTyped S v) (i : Nat) (p : List Nat) (j : Nat) (q : List Nat) :
    v.descend S i (p ++ j :: q) = (do
      match ← v.descend S i p with
      | (.error e, v) => pure (.error e, v)
      | (.ok x, v) => do
        let (r, y) ← x.chainEnd.descend S j q
        pure (r, v.putAt S (x.setChainEnd y) (i :: p))) := by
  cases hfound : v.field? S i with
  | none => exact descend_eq_of_no_field hfound (p ++ j :: q) p _
  | some fx =>
    obtain ⟨f, x⟩ := fx
    cases p with
    | nil =>
      rw [List.nil_append, descend_cons hfound, descend_single hfound, bind_assoc]
      refine Traced.bind_congr ?_
      rw [pure_bind]
      refine Traced.bind_congr ?_
      dsimp only
      rw [putAt_setPosition hv hfound]
    | cons k p =>
      have hend := wellTyped_chainEnd (wellTyped_allocate (S := S) (wellTyped_of_field? hv hfound).1)
      have hpointer := isPointer_of_ty ((wellTyped_descend hend k p).2.trans (isSettled_allocate S x).ty_chainEnd)
      rw [List.cons_append, descend_cons hfound, descend_cons hfound, bind_assoc]
      refine Traced.bind_congr ?_
      rw [descend_append hend k p j q, bind_assoc, bind_assoc]
      refine Traced.bind_congr ?_
      -- the first path fails in the field, or ends there and the second is followed from its end
      rcases hinner : ((x.allocate S).value.chainEnd.descend S k p).value with ⟨e | z, y⟩
      · rfl
      · rw [hinner] at hpointer
        dsimp only
        rw [pure_bind, bind_assoc]
        refine Traced.bind_congr ?_
        rw [pure_bind, putAt_setChainEnd hv hfound _ _ hpointer]
termination_by p

end Value

/-! ## Wrappers -/

namespace Sample

/-- an account without an owner, a limit and guests -/
def newAccount : Value :=
  .record "Account" [.scalar (.ofInt ⟨false, .w8⟩ 7), .nil (.box (.record "Owner")), .nil byte, .list (.record "Owner") []]

theorem wellTyped_newAccount : WellTyped accounts newAccount := by
  rw [newAccount, WellTyped.record_iff]
  refine ⟨rfl, ?_⟩
  simp only [List.forall_mem_cons]
  exact ⟨.scalar _, .nil _, .nil _, WellTyped.list_iff.2 (by simp), by simp⟩

end Sample

namespace Wrapper

/-- What navigation along a path comes to, on contents of a declared type. -/
structure Navigates (S : Schema) (t : Ty) (path : List Nat) (before : Value) (r : Except Fault Wrapper)
    (after : Value) : Prop where
  /-- it succeeds iff each index can be followed at the type that the indexes in front lead to -/
  ok_iff : (∃ sub, r = .ok sub) ↔
    path ≠ [] ∧ ∀ k i, path[k]? = some i → ∃ u, S.typeAt? t (path.take k) = some u ∧ S.HasField u i
  empty : path = [] → r = .error (.invalidPath "empty index path")
  /-- the first index that cannot be followed decides the fault -/
  refused : ∀ k i u e, path[k]? = some i → S.typeAt? t (path.take k) = some u → S.Refuses u i e → r = .error e
  /-- the wrapper is on the field at the end of the path, its pointers gone through -/
  found : ∀ sub, r = .ok sub → ∃ i rest x, path = i :: rest ∧ Leads S after i rest (some x) ∧
    S.typeAt? t path = some x.ty ∧ sub.declared = some x.ty ∧ sub.storage? = some x ∧
    sub.contents? = some x.chainEnd
  frame : AllocatedAlong S path before after

end Wrapper

namespace Holds

variable {S : Schema} {st : Value} {w : Wrapper}

theorem fieldAt_cons (h : Holds S st w) (i : Nat) (path : List Nat) :
    w.fieldAt S (i :: path) = (do
      let (r, v) ← st.chainEnd.descend S i path
      pure (r.map (.settled S), w.put v)) := by
  rw [Wrapper.fieldAt, h.isUnbound, h.target]
  rfl

/-- **Navigation along two paths in a row.** -/
theorem fieldAt_append (h : Holds S st w) (hst : WellTyped S st) {p q : List Nat} (hp : p ≠ []) (hq : q ≠ []) :
    w.fieldAt S (p ++ q) = (do
      match ← w.fieldAt S p with
      | (.error e, w) => pure (.error e, w)
      | (.ok sub, w) => do
        let (r, sub) ← sub.fieldAt S q
        pure (r, w.putFieldAt S p sub)) := by
  obtain ⟨i, p, rfl⟩ := List.exists_cons_of_ne_nil hp
  obtain ⟨j, q, rfl⟩ := List.exists_cons_of_ne_nil hq
  have hend := Value.wellTyped_chainEnd hst
  rw [List.cons_append, h.fieldAt_cons, h.fieldAt_cons, Value.descend_append hend, bind_assoc, bind_assoc]
  refine Traced.bind_congr ?_
  have hty := (Value.wellTyped_descend hend i p).2.trans h.ty_chainEnd
  rcases hfirst : (st.chainEnd.descend S i p).value with ⟨e | x, v⟩
  · rfl
  · obtain ⟨hx, hsettled, -⟩ := Value.descend_found hend (congrArg Prod.fst hfirst)
    have hsub := Holds.of_settled S hsettled
    replace hty : v.ty = st.ty.resolved := by rwa [hfirst] at hty
    dsimp only [Except.map]
    rw [pure_bind, bind_assoc]
    dsimp only
    rw [hsub.fieldAt_cons, bind_assoc]
    refine Traced.bind_congr ?_
    have hinner := (Value.wellTyped_descend (Value.wellTyped_chainEnd hx) j q).2.trans hsub.ty_chainEnd
    rw [pure_bind, pure_bind, (h.put hty).putFieldAt (hsub.put hinner), Value.chainEnd_setChainEnd st
      (Value.isPointer_of_ty hty), Wrapper.put_put w (Value.isPointer_of_ty hty)]
    rfl

/-- what the wrapper along a path is on: its pointers are allocated, and it is of the type declared there -/
theorem found_of_fieldAt (h : Holds S st w) (hst : WellTyped S st) {path : List Nat} {sub : Wrapper}
    (hsub : (w.fieldAt S path).value.1 = .ok sub) :
    ∃ i rest x, path = i :: rest ∧ (st.chainEnd.descend S i rest).value.1 = .ok x ∧ sub = .settled S x ∧
      x.IsSettled ∧ S.typeAt? st.ty path = some x.ty := by
  obtain ⟨i, rest, x, rfl, hx, rfl⟩ := h.exists_of_fieldAt hsub
  obtain ⟨-, hsettled, htype⟩ := Value.descend_found (Value.wellTyped_chainEnd hst) hx
  rw [h.ty_chainEnd, Schema.typeAt?_resolved] at htype
  exact ⟨i, rest, x, rfl, hx, rfl, hsettled, htype⟩

theorem navigates (h : Holds S st w) (hst : WellTyped S st) (path : List Nat) :
    ∃ c, (w.fieldAt S path).value.2 = w.put c ∧ (w.put c).contents? = some c ∧
      Wrapper.Navigates S st.ty path st.chainEnd (w.fieldAt S path).value.1 c := by
  have hend := Value.wellTyped_chainEnd hst
  cases path with
  | nil =>
    rw [Wrapper.fieldAt, h.isUnbound]
    exact ⟨st.chainEnd, h.put_contents.symm, h.contents_put h.ty_chainEnd, by simp, by simp, by simp, by simp, .done _⟩
  | cons i rest =>
    have hvalue := h.value_fieldAt i rest
    refine ⟨_, congrArg Prod.snd hvalue, h.contents_put ((Value.wellTyped_descend hend i rest).2.trans h.ty_chainEnd),
      ?_, by simp, ?_, ?_, Value.allocatedAlong_descend hend i rest⟩
    · rw [← Schema.exists_typeAt?_iff]
      constructor
      · rintro ⟨sub, hsub⟩
        obtain ⟨-, -, x, -, -, -, -, htype⟩ := h.found_of_fieldAt hst hsub
        exact ⟨List.cons_ne_nil i rest, x.ty, htype⟩
      · rintro ⟨-, u, hu⟩
        obtain ⟨x, hx⟩ := Value.descend_ok_of_typeAt? hend h.ty_chainEnd hu
        exact ⟨.settled S x, by rw [hvalue, hx]; rfl⟩
    · intro k j u e hj hu hrefuses
      rw [hvalue, Value.descend_error_of_refuses hend h.ty_chainEnd hj hu hrefuses]
      rfl
    · intro sub hsub
      obtain ⟨j, path, x, hpath, hx, rfl, hsettled, htype⟩ := h.found_of_fieldAt hst hsub
      obtain ⟨rfl, rfl⟩ := List.cons.inj hpath
      have hfield := Holds.of_settled S hsettled
      have hleads := (Value.leads_descend hend i rest).2
      rw [hx] at hleads
      exact ⟨i, rest, x, rfl, hleads, htype, rfl, hfield.storage, hfield.contents⟩

end Holds

/-- **Navigation follows the valid paths, and only those, and composes.** On every writable wrapper and along every path:
navigation succeeds iff the path is not empty and each index is that of a visible field of the record which the indexes
in front lead to, pointers aside. Otherwise the first index that is not decides the fault. The wrapper that is found is
of the declared type of the last field and shows what the field holds behind its pointers. Whether or not it succeeds,
only the nil pointers of the fields that were passed are allocated. And navigation along two paths in a row is
navigation along the first, then along the second from the wrapper that was found, which is put back: the same fault or
wrapper, the same contents, the same allocations. -/
theorem Wrapper.fieldAt_navigates {S : Schema} {w : Wrapper} (hw : Built S w) {t : Ty} (ht : w.declared = some t)
    {c : Value} (hc : w.contents? = some c) :
    (∀ path, ∃ c', (w.fieldAt S path).value.2 = w.put c' ∧ (w.put c').contents? = some c' ∧
      Navigates S t path c (w.fieldAt S path).value.1 c') ∧
    ∀ p q, p ≠ [] → q ≠ [] → w.fieldAt S (p ++ q) = (do
      match ← w.fieldAt S p with
      | (.error e, w) => pure (.error e, w)
      | (.ok sub, w) => do
        let (r, sub) ← sub.fieldAt S q
        pure (r, w.putFieldAt S p sub)) := by
  obtain ⟨st, hst, h⟩ := hw.holds
  obtain rfl : st.ty = t := Option.some.inj (h.declared.symm.trans ht)
  obtain rfl : st.chainEnd = c := Option.some.inj (h.contents.symm.trans hc)
  exact ⟨h.navigates hst, fun p q hp hq => h.fieldAt_append hst hp hq⟩

/-- in an account without an owner the owner's name is found at [0, 0], in one go or in two; a second field of the owner
is not found, and neither is a field of its name, but then there is an owner, and still no limit -/
theorem Wrapper.fieldAt_navigates_account :
    let w := (locate Sample.accounts Sample.newAccount).value
    (∃ sub, (w.fieldAt Sample.accounts [0, 0]).value.1 = .ok sub ∧ sub.declared = some (.scalar .string)) ∧
      w.fieldAt Sample.accounts [0, 0] = (do
        match ← w.fieldAt Sample.accounts [0] with
        | (.error e, w) => pure (.error e, w)
        | (.ok sub, w) => do
          let (r, sub) ← sub.fieldAt Sample.accounts [0]
          pure (r, w.putFieldAt Sample.accounts [0] sub)) ∧
      (w.fieldAt Sample.accounts [0, 1]).value.1 = .error (.indexOutOfRange 1 1 "Owner") ∧
      (w.fieldAt Sample.accounts [0, 0, 3]).value.1 =
        .error (.invalidPath "cannot descend into field 3 of alloc::string::String, which is not a struct") ∧
      ∃ vs owner, (w.fieldAt Sample.accounts [0, 0, 3]).value.2.contents? = some (.record "Account" vs) ∧
        vs[1]? = some (.ptr (.box owner)) ∧ vs[2]? = some (.nil Sample.byte) := by
  intro w
  have hw : Built Sample.accounts w := .locate Sample.wellTyped_newAccount
  obtain ⟨hpaths, happend⟩ := fieldAt_navigates hw rfl rfl
  obtain ⟨_, -, -, hname⟩ := hpaths [0, 0]
  obtain ⟨_, -, -, hsecond⟩ := hpaths [0, 1]
  obtain ⟨c, hput, hcontents, hbelow⟩ := hpaths [0, 0, 3]
  refine ⟨?_, happend [0] [0] (by simp) (by simp), ?_, ?_, ?_⟩
  · obtain ⟨sub, hsub⟩ := hname.ok_iff.2 ⟨by simp, Schema.exists_typeAt?_iff.1 ⟨.scalar .string, rfl⟩⟩
    obtain ⟨-, -, x, -, -, htype, hdeclared, -⟩ := hname.found sub hsub
    refine ⟨sub, hsub, ?_⟩
    rw [hdeclared, ← htype]
    rfl
  · have hrefuses : Sample.accounts.Refuses (.option (.box (.record "Owner"))) 1
        (.indexOutOfRange 1 (Sample.accounts.visible "Owner").length "Owner") := .outOfRange rfl (Nat.le_refl 1)
    exact hsecond.refused 1 1 _ _ rfl rfl hrefuses
  · have hrefuses : Sample.accounts.Refuses (.scalar .string) 3
        (.invalidPath "cannot descend into field 3 of alloc::string::String, which is not a struct") :=
      .notRecord 3 (by simp [Ty.resolved])
    exact hbelow.refused 2 3 _ _ rfl rfl hrefuses
  · rw [hput, hcontents]
    cases hbelow.frame with
    | off path h => cases h
    | field hf hx hothers hx' hrest =>
      cases hf
      cases hx
      rw [Value.setChainEnd_eq_layered, Value.ty_allocate] at hx'
      exact ⟨_, _, rfl, hx', hothers 2 (by decide)⟩

end DynAssign
