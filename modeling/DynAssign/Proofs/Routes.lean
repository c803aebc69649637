/-
The routes to a field.

A visible field has a number among the visible fields of its record and a position among all of them. Descriptors,
enumeration, navigation and reading count the visible ones, writing goes by position. `Schema.Locates` says where the
field of a number is declared, and the descriptor of the record lists exactly the fields that are located so
(`Schema.getElem?_visible_iff`, by induction on the declarations).

- `Wrapper.Addresses`: the field of a number as each route finds it. All that a record needs for it is a value of the
  declared type at the field's position (`Holds.addresses`).
- `Wrapper.HasWritten`: what is left of a record after a field was written. Whatever was written, it is found by each
  route, and the other positions are as they were (`Holds.hasWritten`).

`Wrapper.fields_addressed` is the main statement, on any writable wrapper of a record and for writes by both routes.
-/
import DynAssign.Proofs.Looking
import DynAssign.Proofs.Navigation
import DynAssign.Proofs.Order

namespace DynAssign

/-! ## Numbers and positions -/

/-- a visible declaration has the number of those in front of it -/
theorem getElem?_visibleFrom {i p q k : Nat} {ds : List FieldDecl} {d : FieldDecl} (hd : ds[q]? = some d)
    (hvisible : d.visible = true) (hcount : (ds.take q).countP (·.visible) = k) :
    (visibleFrom i p ds)[k]? = some ⟨d.name, d.ty, d.tags, i + k, p + q⟩ := by
  induction ds generalizing i p q k with
  | nil => simp at hd
  | cons d' ds ih => cases q with
    | zero =>
      obtain rfl : d' = d := by simpa using hd
      subst hcount
      simp [visibleFrom, hvisible]
    | succ q =>
      have hd : ds[q]? = some d := by simpa using hd
      rw [List.take_succ_cons] at hcount
      unfold visibleFrom
      split
      · next hd' =>
        rw [List.countP_cons_of_pos hd'] at hcount
        subst hcount
        rw [List.getElem?_cons_succ, ih hd rfl, Nat.add_right_comm i, Nat.add_right_comm p]
        rfl
      · next hd' =>
        rw [List.countP_cons_of_neg hd'] at hcount
        rw [ih hd hcount, Nat.add_right_comm p]
        rfl

theorem exists_decl_of_visibleFrom {i p k : Nat} {ds : List FieldDecl} {f : VisibleField}
    (h : (visibleFrom i p ds)[k]? = some f) :
    ∃ q d, ds[q]? = some d ∧ d.visible = true ∧ (ds.take q).countP (·.visible) = k ∧
      f = ⟨d.name, d.ty, d.tags, i + k, p + q⟩ := by
  fun_induction visibleFrom i p ds generalizing k with
  | case1 => simp at h
  | case2 i p d ds hd ih => cases k with
    | zero =>
      obtain rfl := Option.some.inj h
      exact ⟨0, d, rfl, hd, rfl, rfl⟩
    | succ k =>
      obtain ⟨q, d', hd', hvisible, hcount, rfl⟩ := ih (by simpa using h)
      exact ⟨q + 1, d', hd', hvisible, by simp [hd, hcount], by simp; omega⟩
  | case3 i p d ds hd ih =>
    obtain ⟨q, d', hd', hvisible, hcount, rfl⟩ := ih h
    exact ⟨q + 1, d', hd', hvisible, by simp [hd, hcount], by simp; omega⟩

theorem pairwise_visibleFrom (i p : Nat) (ds : List FieldDecl) :
    (visibleFrom i p ds).Pairwise fun f g => f.position < g.position := by
  fun_induction visibleFrom i p ds with
  | case1 => exact .nil
  | case2 i p d ds hd ih => exact .cons (fun g hg => le_position_of_mem hg) ih
  | case3 i p d ds hd ih => exact ih

namespace Schema

/-- the visible field of a number, and its declaration -/
structure Locates (S : Schema) (record : String) (k : Nat) (f : VisibleField) (d : FieldDecl) : Prop where
  declared : (S.fields record)[f.position]? = some d
  visible : d.visible = true
  /-- so many visible fields are declared in front of it -/
  before : ((S.fields record).take f.position).countP (·.visible) = k
  index : f.index = k
  same : f.name = d.name ∧ f.ty = d.ty ∧ f.tags = d.tags

theorem getElem?_visible_iff {S : Schema} {name : String} {k : Nat} {f : VisibleField} :
    (S.visible name)[k]? = some f ↔ ∃ d, S.Locates name k f d := by
  constructor
  · intro h
    obtain ⟨p, d, hd, hvisible, hbefore, rfl⟩ := exists_decl_of_visibleFrom h
    rw [Nat.zero_add, Nat.zero_add]
    exact ⟨d, hd, hvisible, hbefore, rfl, rfl, rfl, rfl⟩
  · rintro ⟨d, hd, hvisible, hbefore, hindex, hname, hty, htags⟩
    rw [visible, getElem?_visibleFrom hd hvisible hbefore, ← hname, ← hty, ← htags, ← hindex, Nat.zero_add,
      Nat.zero_add]

end Schema

/-! ## One field -/

namespace Wrapper

/-- The field of a number in the contents of a wrapper, and the value that it holds, as each route finds it. Writable
wrappers on the field are wrappers on that value, whichever way they are made. -/
structure Addresses (S : Schema) (w : Wrapper) (k : Nat) (f : VisibleField) (x : Value) : Prop where
  described : w.descriptor.fields[k]? = some f
  read : (w.contents?.bind fun c => c.field? S k) = some (f, x)
  enumerated : (w.fields S).value.1[k]? = some ⟨f, none, (locate S x).value⟩
  navigated : (w.fieldAt S [k]).value.1 = .ok (locate S x).value
  declared : (locate S x).value.declared = some f.ty

/-- What a wrapper is once the field of a number, in a record with these values, was written: each route finds what the
field holds now, and at every other position stands what the rule leaves of the value before. -/
structure HasWritten (S : Schema) (w : Wrapper) (name : String) (vs : List Value) (k : Nat) (f : VisibleField)
    (y : Value) (rest : FieldDecl → Value → Value) : Prop where
  seen : Addresses S w k f y
  others : ∃ ws, w.contents? = some (.record name ws) ∧ ws.length = vs.length ∧
    ∀ p d v, p ≠ f.position → (S.fields name)[p]? = some d → vs[p]? = some v → ws[p]? = some (rest d v)

end Wrapper

namespace Holds

variable {S : Schema} {st x y : Value} {w : Wrapper} {name : String} {vs : List Value} {k : Nat} {f : VisibleField}

theorem descriptor_record (h : Holds S st w) (hc : st.chainEnd = .record name vs) :
    w.descriptor = S.descriptor (.record name) := by
  have hname : st.ty.resolved = .record name := h.resolved_of_chainEnd hc
  rw [h.descriptor, ← Schema.descriptor_resolved, hname]

theorem value_fields (h : Holds S st w) (hc : st.chainEnd = .record name vs) :
    (w.fields S).value =
      (Wrapper.fieldsWith S none 0 0 (S.fields name) (Value.allocateVisible S (S.fields name) vs).value,
        w.put (.record name (Value.allocateVisible S (S.fields name) vs).value)) :=
  h.fieldsFor hc none

/-- **Every route finds the same field.** -/
theorem addresses (h : Holds S st w) (hc : st.chainEnd = .record name vs) (hlen : (S.fields name).length = vs.length)
    (hf : (S.visible name)[k]? = some f) (hx : vs[f.position]? = some x) (hty : x.ty = f.ty) :
    Wrapper.Addresses S w k f x := by
  obtain ⟨d, hd⟩ := Schema.getElem?_visible_iff.1 hf
  have hfound := (Value.field?_iff hlen).2 ⟨hf, hx⟩
  refine ⟨?_, ?_, ?_, ?_, ?_⟩
  · rw [h.descriptor_record hc]
    exact hf
  · rw [h.contents, hc, Option.bind_some, hfound]
  · -- enumeration finds it among the allocated values
    have hx' := Value.getElem?_allocateVisible (S := S) hd.declared hx
    rw [if_pos hd.visible] at hx'
    have hlen' := hlen.trans (Value.length_allocateVisible S (S.fields name) vs).symm
    have hfound' := (Value.field?_iff hlen').2 ⟨hf, hx'⟩
    rw [Value.field?, Value.fields?_record, Option.bind_some] at hfound'
    rw [h.value_fields hc, Wrapper.fieldsWith, List.filterMap_eq_map', List.getElem?_map, hfound']
    rfl
  · rw [h.value_fieldAt, hc, Value.descend_last hfound]
    rfl
  · rw [← hty, ← Value.ty_allocate S x]
    rfl

/-- **A field that is written.** In a record whose values are those of another one up to a rule, a value of the field's
type is put at its position. -/
theorem hasWritten {us : List Value} {rest : FieldDecl → Value → Value} (h : Holds S st w)
    (hc : st.chainEnd = .record name us) (hlen : (S.fields name).length = vs.length) (hus : us.length = vs.length)
    (hf : (S.visible name)[k]? = some f) (hy : y.ty = f.ty)
    (hrest : ∀ (p : Nat) d v, (S.fields name)[p]? = some d → vs[p]? = some v → us[p]? = some (rest d v)) :
    Wrapper.HasWritten S (w.put (.record name (us.set f.position y))) name vs k f y rest := by
  have hname : st.ty.resolved = .record name := h.resolved_of_chainEnd hc
  have hset : (us.set f.position y).length = us.length := List.length_set
  obtain ⟨d, hd⟩ := Schema.getElem?_visible_iff.1 hf
  have hlt : f.position < us.length := by
    rw [hus, ← hlen]
    exact (List.getElem?_eq_some_iff.1 hd.declared).1
  have hw := h.put (x := .record name (us.set f.position y)) hname.symm
  refine ⟨hw.addresses (Value.chainEnd_setChainEnd st rfl) ?_ hf (List.getElem?_set_self hlt) hy, ?_⟩
  · rw [hset, hus, hlen]
  · refine ⟨us.set f.position y, h.contents_put hname.symm, hset.trans hus, ?_⟩
    intro p d v hp hd hv
    rw [List.getElem?_set_ne (Ne.symm hp)]
    exact hrest p d v hd hv

/-- a wrapper on a value that takes a source is on a value of the same type then, and shows it -/
theorem assign_located (S : Schema) (x src : Value) :
    ∃ y, Holds S y ((Wrapper.locate S x).value.assign S src).value.2 ∧ y.ty = x.ty := by
  have hx := Holds.locate S x
  have hty := Wrapper.ty_assigned S (x.allocate S).value.ty.resolved src
  rw [Wrapper.value_assign hx]
  refine ⟨_, hx.put hty, ?_⟩
  rw [Value.ty_setChainEnd hty, Value.ty_allocate]

end Holds

/-! ## Writes by either route -/

namespace Holds

variable {S : Schema} {st x y : Value} {w sub : Wrapper} {name : String} {vs : List Value} {k : Nat} {f : VisibleField}

/-- the wrapper of an enumerated field, on another value by now, put back -/
theorem hasWritten_putField (h : Holds S st w) (hc : st.chainEnd = .record name vs)
    (hlen : (S.fields name).length = vs.length) (hf : (S.visible name)[k]? = some f) (hsub : Holds S y sub)
    (hy : y.ty = f.ty) :
    Wrapper.HasWritten S ((w.fields S).value.2.putField ⟨f, none, sub⟩) name vs k f y (fun d v => d.passed S v) := by
  have hname : st.ty.resolved = .record name := h.resolved_of_chainEnd hc
  have hfields := h.value_fields hc
  -- all visible fields were allocated when they were wrapped
  have hus := Value.length_allocateVisible S (S.fields name) vs
  have hrest (p : Nat) (d : FieldDecl) (v : Value) (hd : (S.fields name)[p]? = some d) (hv : vs[p]? = some v) :=
    getElem?_allocateVisible (S := S) hd hv
  generalize (Value.allocateVisible S (S.fields name) vs).value = us at hfields hus hrest
  have hw := h.put (x := .record name us) hname.symm
  have hend : (st.setChainEnd (.record name us)).chainEnd = .record name us := Value.chainEnd_setChainEnd st rfl
  rw [hfields, hw.putField hend (f := ⟨f, none, sub⟩) hsub]
  exact hw.hasWritten hend hlen hus hf hy hrest

/-- the wrapper found by navigation, on another value by now, put back -/
theorem hasWritten_putFieldAt (h : Holds S st w) (hst : WellTyped S st) (hc : st.chainEnd = .record name vs)
    (hf : (S.visible name)[k]? = some f) (hx : vs[f.position]? = some x) (hsub : Holds S y sub) (hy : y.ty = f.ty) :
    Wrapper.HasWritten S ((w.fieldAt S [k]).value.2.putFieldAt S [k] sub) name vs k f y (fun _ v => v) := by
  have hname : st.ty.resolved = .record name := h.resolved_of_chainEnd hc
  have hend := Value.wellTyped_chainEnd hst
  rw [hc] at hend
  have hfound := (Value.field?_iff hend.length_fields).2 ⟨hf, hx⟩
  -- the record with the pointers of this one field allocated
  have hw := h.put (x := .record name (vs.set f.position (x.allocate S).value)) hname.symm
  have hput := Value.putAt_setPosition hend hfound (x.allocate S).value y
  rw [h.value_fieldAt, hc, Value.descend_last hfound, Value.setPosition, hw.putFieldAt hsub,
    Value.chainEnd_setChainEnd st rfl, Wrapper.put_put w rfl]
  rw [Value.setPosition] at hput
  rw [hput, Value.setPosition]
  exact h.hasWritten hc hend.length_fields rfl hf hy fun p d v _ hv => hv

end Holds

/-- **All routes lead to the same field, and fields lie apart.** The descriptor of a record lists its visible fields by
number, each with its position among all declared ones, and the positions increase. On a writable wrapper the field
that is enumerated, navigated to or read under a number is the one that the descriptor lists there, of its declared
type. And whatever source is assigned to the wrapper on a field, by whichever route it was got and with whatever
outcome, every route leads to what was stored, and no other field changes: navigation leaves the others as they are, and
enumeration allocates the nil pointers of the visible ones. -/
theorem Wrapper.fields_addressed {S : Schema} {w : Wrapper} (hw : Built S w) {name : String} {vs : List Value}
    (hc : w.contents? = some (.record name vs)) :
    (∀ k f, w.descriptor.fields[k]? = some f ↔ ∃ d, S.Locates name k f d) ∧
    w.descriptor.fields.Pairwise (fun f g => f.position < g.position) ∧
    (w.fields S).value.1.map Field.decl = w.descriptor.fields ∧
    ∀ k f, w.descriptor.fields[k]? = some f → ∃ x, vs[f.position]? = some x ∧ Addresses S w k f x ∧
      ∀ src, let sub := ((locate S x).value.assign S src).value.2
        ∃ y, sub.storage? = some y ∧ (locate S y).value.contents? = sub.contents? ∧
          HasWritten S ((w.fields S).value.2.putField ⟨f, none, sub⟩) name vs k f y (fun d v => d.passed S v) ∧
          HasWritten S ((w.fieldAt S [k]).value.2.putFieldAt S [k] sub) name vs k f y (fun _ v => v) := by
  obtain ⟨st, hst, h⟩ := hw.holds
  have hend : st.chainEnd = .record name vs := Option.some.inj (h.contents.symm.trans hc)
  have htyped := Value.wellTyped_chainEnd hst
  rw [hend] at htyped
  have hlen := htyped.length_fields
  have hdescribed : w.descriptor.fields = S.visible name := congrArg Descriptor.fields (h.descriptor_record hend)
  rw [hdescribed]
  refine ⟨fun k f => Schema.getElem?_visible_iff, pairwise_visibleFrom 0 0 _, ?_, ?_⟩
  · rw [h.value_fields hend, map_decl_fieldsWith S none 0 0 (hlen.trans (Value.length_allocateVisible S _ vs).symm)]
    exact List.filterMap_some
  · intro k f hf
    obtain ⟨x, hfound, hty, -⟩ := Value.exists_field?_of_visible htyped rfl hf
    have hx := ((Value.field?_iff hlen).1 hfound).2
    refine ⟨x, hx, h.addresses hend hlen hf hx hty, fun src => ?_⟩
    obtain ⟨y, hy, hyty⟩ := Holds.assign_located S x src
    refine ⟨y, hy.storage, ?_, h.hasWritten_putField hend hlen hf hy (hyty.trans hty),
      h.hasWritten_putFieldAt hst hend hf hx hy (hyty.trans hty)⟩
    rw [(Holds.locate S y).contents, hy.contents, hy.settled.allocate S]
    rfl

/-- the limit of an account that has no owner takes a text that is no number: it is found as zero by the other route, the
hidden serial number is the same, and there is an owner afterwards if the fields were enumerated -/
theorem Wrapper.fields_addressed_account :
    let limit : VisibleField := ⟨"limit", .option Sample.byte, [], 1, 2⟩
    let noOwner : Value := .nil (.box (.record "Owner"))
    let serial : Value := .scalar (.ofInt ⟨false, .w8⟩ 7)
    let w := (locate Sample.accounts Sample.newAccount).value
    let sub := ((locate Sample.accounts (.nil Sample.byte)).value.assign Sample.accounts (.literal "heavy")).value.2
    let enumerated := (w.fields Sample.accounts).value.2.putField ⟨limit, none, sub⟩
    let navigated := (w.fieldAt Sample.accounts [1]).value.2.putFieldAt Sample.accounts [1] sub
    sub.contents? = some (.scalar (.ofInt ⟨false, .w8⟩ 0)) ∧
      ∃ y ws us, (locate Sample.accounts y).value.contents? = sub.contents? ∧
        (enumerated.fieldAt Sample.accounts [1]).value.1 = .ok (locate Sample.accounts y).value ∧
        (navigated.fields Sample.accounts).value.1[1]? = some ⟨limit, none, (locate Sample.accounts y).value⟩ ∧
        enumerated.contents? = some (.record "Account" ws) ∧ ws[0]? = some serial ∧
        ws[1]? = some (noOwner.allocate Sample.accounts).value ∧
        navigated.contents? = some (.record "Account" us) ∧ us[0]? = some serial ∧ us[1]? = some noOwner := by
  intro limit noOwner serial w sub enumerated navigated
  have hw : Built Sample.accounts w := .locate Sample.wellTyped_newAccount
  obtain ⟨-, -, -, hfields⟩ := fields_addressed hw rfl
  obtain ⟨x, hx, -, hwrites⟩ := hfields 1 limit rfl
  cases hx
  obtain ⟨y, -, hsame, henumerated, hnavigated⟩ := hwrites (.literal "heavy")
  obtain ⟨ws, hws, -, hrest⟩ := henumerated.others
  obtain ⟨us, hus, -, hkept⟩ := hnavigated.others
  refine ⟨?_, y, ws, us, hsame, henumerated.seen.navigated, hnavigated.seen.enumerated, hws, ?_, ?_, hus, ?_, ?_⟩
  · dsimp only [sub]
    cbv
  · exact hrest 0 _ serial (by decide) rfl rfl
  · exact hrest 1 _ noOwner (by decide) rfl rfl
  · exact hkept 0 _ serial (by decide) rfl rfl
  · exact hkept 1 _ noOwner (by decide) rfl rfl

end DynAssign
