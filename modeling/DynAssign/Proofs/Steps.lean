/-
What a step leaves of a wrapper.

Steps on a writable wrapper change what it shows, and nothing else: `Rewrites S w w'` says that w' is w with other
contents, well typed and of the same type. Each operation rewrites (`Holds.rewrites_assign` and so on), and so does
what was done to the wrapper of a field once the field is put back (`Holds.rewrites_putField`,
`Holds.rewrites_putFieldAt`).

Main statement, by induction on the step: `Script.rewrites_exec`; for steps in order `Script.rewrites_execAll`. The
values in the steps have to be well typed (`Step.Typed`).
-/
import DynAssign.Proofs.Typed
import DynAssign.Script

namespace DynAssign

/-- the values in a step are well typed, in the steps inside it too -/
inductive Step.Typed (S : Schema) : Step → Prop where
  | look : Typed S .look
  | assign {src : Value} (hsrc : WellTyped S src) : Typed S (.assign src)
  | reset : Typed S .reset
  | append {items : List Value} (hitems : ∀ v ∈ items, WellTyped S v) : Typed S (.append items)
  | freshElement {steps : List Step} (hsteps : ∀ s ∈ steps, Typed S s) (appended : Bool) :
    Typed S (.freshElement steps appended)
  | fields (tag : Option String) : Typed S (.fields tag)
  | field (tag : Option String) (i : Nat) {steps : List Step} (hsteps : ∀ s ∈ steps, Typed S s) :
    Typed S (.field tag i steps)
  | fieldAt (path : List Nat) {steps : List Step} (hsteps : ∀ s ∈ steps, Typed S s) : Typed S (.fieldAt path steps)
  | fill (tag : Option String) {l : Lookup} (hl : ∀ key, (l key).Typed S) (told : Bool) : Typed S (.fill tag l told)
  | describe : Typed S .describe
  | describeField (name : String) : Typed S (.describeField name)
  | read (t : Ty) : Typed S (.read t)
  | inspect : Typed S .inspect

/-- a wrapper later on: it shows other contents, well typed and of the same type, and all else is as it was -/
def Rewrites (S : Schema) (w w' : Wrapper) : Prop :=
  ∃ old v, w.contents? = some old ∧ WellTyped S v ∧ v.ty = old.ty ∧ w' = w.put v

namespace Rewrites

variable {S : Schema} {w w' w'' : Wrapper}

theorem built (h : Rewrites S w w') (hw : Built S w) : Built S w' := by
  obtain ⟨old, v, hold, hv, hty, rfl⟩ := h
  exact .put hw hold hv hty

theorem exists_put {st : Value} (h : Rewrites S w w') (hw : Holds S st w) :
    ∃ v, WellTyped S v ∧ v.ty = st.ty.resolved ∧ w' = w.put v := by
  obtain ⟨old, v, hold, hv, hty, rfl⟩ := h
  rw [hw.contents] at hold
  cases hold
  exact ⟨v, hv, hty.trans hw.ty_chainEnd, rfl⟩

theorem trans (hw : Built S w) (h : Rewrites S w w') (h' : Rewrites S w' w'') : Rewrites S w w'' := by
  obtain ⟨st, -, hst⟩ := hw.holds
  obtain ⟨v, hv, hty, rfl⟩ := h.exists_put hst
  obtain ⟨v', hv', hty', rfl⟩ := h'.exists_put (hst.put hty)
  rw [Value.ty_setChainEnd hty] at hty'
  exact ⟨st.chainEnd, v', hst.contents, hv', hty'.trans hst.ty_chainEnd.symm,
    Wrapper.put_put w (Value.isPointer_of_ty hty) v'⟩

end Rewrites

namespace Holds

variable {S : Schema} {st : Value} {w : Wrapper}

/-! ## One operation -/

theorem rewrites_put (h : Holds S st w) {v : Value} (hv : WellTyped S v) (hty : v.ty = st.ty.resolved) :
    Rewrites S w (w.put v) :=
  ⟨st.chainEnd, v, h.contents, hv, hty.trans h.ty_chainEnd.symm, rfl⟩

theorem rewrites_self (h : Holds S st w) (hst : WellTyped S st) : Rewrites S w w :=
  ⟨st.chainEnd, st.chainEnd, h.contents, Value.wellTyped_chainEnd hst, rfl, h.put_contents.symm⟩

theorem rewrites_assign (h : Holds S st w) {src : Value} (hsrc : WellTyped S src) :
    Rewrites S w (w.assign S src).value.2 := by
  rw [Wrapper.value_assign h]
  exact h.rewrites_put (Wrapper.wellTyped_assigned hsrc _) (Wrapper.ty_assigned S _ src)

theorem rewrites_reset (h : Holds S st w) : Rewrites S w (w.reset S).value.2 := by
  rw [Wrapper.reset_eq h]
  exact h.rewrites_put (Value.wellTyped_zero S _) (Value.ty_zero S _)

theorem rewrites_append (h : Holds S st w) (hst : WellTyped S st) {items : List Value}
    (hitems : ∀ v ∈ items, WellTyped S v) : Rewrites S w (w.append S items).value.2 := by
  by_cases hslice : w.descriptor.isSlice
  · rw [h.descriptor, Schema.isSlice_iff] at hslice
    obtain ⟨e, he⟩ := hslice
    obtain ⟨xs, hc⟩ := h.exists_list he
    have hend := Value.wellTyped_chainEnd hst
    rw [hc] at hend
    rw [Wrapper.value_append h hc]
    cases hys : (Value.convertAll S items 0 e).run.value with
    | error err => exact h.rewrites_self hst
    | ok ys =>
      have hall := Value.wellTyped_convertAll (fun x hx r hr => Value.wellTyped_convert (hitems x hx) hr) hys
      refine h.rewrites_put (WellTyped.list_iff.2 ?_) he.symm
      rw [List.forall_mem_append]
      exact ⟨WellTyped.list_iff.1 hend, fun y hy => ⟨Value.ty_of_mem_convertAll hys y hy, hall y hy⟩⟩
  · rw [Wrapper.append, h.isUnbound]
    simp only [Bool.false_eq_true, if_false, hslice]
    exact h.rewrites_self hst

theorem rewrites_fill (h : Holds S st w) (hst : WellTyped S st) (tag : Option String) {l : Lookup}
    (hl : ∀ key, (l key).Typed S) : Rewrites S w (w.fill S tag l).value.wrapper := by
  by_cases hrec : ∃ name, st.ty.resolved = .record name
  · obtain ⟨name, hname⟩ := hrec
    obtain ⟨hv, hty⟩ := keepsTypes_walkRecord tag (Lookup.keepsTypes_rule hl tag) st.chainEnd
      (Value.wellTyped_chainEnd hst) (Value.isSettled_of_not_isPointer h.settled)
    rw [h.value_fill hname]
    exact h.rewrites_put hv (hty.trans h.ty_chainEnd)
  · rw [Wrapper.fill, h.value_visit_of_not_record tag _ fun name hname => hrec ⟨name, hname⟩]
    exact h.rewrites_self hst

/-! ## Fields -/

section

variable {x : Value} {sub : Wrapper} {name : String} {vs : List Value}

theorem putField (h : Holds S st w) (hc : st.chainEnd = .record name vs) {f : Field} (hf : Holds S x f.wrapper) :
    w.putField f = w.put (.record name (vs.set f.decl.position x)) := by
  have htarget := h.target
  rw [hc] at htarget
  exact Wrapper.putField_record htarget hf.storage

theorem putFieldAt (h : Holds S st w) (hsub : Holds S x sub) (path : List Nat) :
    w.putFieldAt S path sub = w.put (st.chainEnd.putAt S x path) := by
  rw [Wrapper.putFieldAt, Wrapper.storage?, hsub.storage, h.target]

end

/-- Enumeration on a record, and on anything else. Of a record each field is wrapped on its value, all pointers
allocated. -/
theorem fieldsFor_cases (h : Holds S st w) (hst : WellTyped S st) (tag : Option String) :
    (w.fieldsFor S tag).value = ([], w) ∨
    ∃ name ws, st.ty.resolved = .record name ∧ WellTyped S (.record name ws) ∧
      Value.VisibleSettled (S.fields name) ws ∧
      (w.fieldsFor S tag).value = (Wrapper.fieldsWith S tag 0 0 (S.fields name) ws, w.put (.record name ws)) := by
  by_cases hrec : w.descriptor.isRecord
  · obtain ⟨name, hname⟩ := h.isRecord_iff.1 hrec
    obtain ⟨vs, hc⟩ := h.exists_record hname
    have hend := Value.wellTyped_chainEnd hst
    rw [hc] at hend
    obtain ⟨htys, hvs⟩ := WellTyped.record_iff.1 hend
    refine .inr ⟨name, (Value.allocateVisible S (S.fields name) vs).value, hname, ?_,
      Value.visibleSettled_allocateVisible S _ vs, h.fieldsFor hc tag⟩
    exact .record ((Value.map_ty_allocateVisible S _ vs).trans htys) (Value.wellTyped_allocateVisible hvs)
  · exact .inl (fieldsFor_of_not_isRecord (by simpa using hrec) S tag)

theorem rewrites_fieldsFor (h : Holds S st w) (hst : WellTyped S st) (tag : Option String) :
    Rewrites S w (w.fieldsFor S tag).value.2 := by
  rcases h.fieldsFor_cases hst tag with heq | ⟨name, ws, hname, hws, -, heq⟩
  · rw [heq]
    exact h.rewrites_self hst
  · rw [heq]
    exact h.rewrites_put hws hname.symm

/-- a field's wrapper that shows other contents of the same type, put back -/
theorem rewrites_putField (h : Holds S st w) (hst : WellTyped S st) {tag : Option String} {f : Field} {sub : Wrapper}
    (hf : f ∈ (w.fieldsFor S tag).value.1) (hsub : Rewrites S f.wrapper sub) :
    Rewrites S w ((w.fieldsFor S tag).value.2.putField { f with wrapper := sub }) := by
  rcases h.fieldsFor_cases hst tag with heq | ⟨name, ws, hname, hws, hsettled, heq⟩
  · rw [heq] at hf
    cases hf
  · rw [heq] at hf ⊢
    obtain ⟨x, hmem, hwrap⟩ := Wrapper.wrapper_of_mem_fieldsWith hf
    obtain ⟨p, d, hp, -, hx, -, -⟩ := exists_decl_of_mem_visibleWith hmem
    have hx' := Value.isSettled_of_mem_visibleWith hmem hsettled
    have hfield := Holds.of_settled S hx'
    rw [hwrap] at hsub
    obtain ⟨v, hv, hty, rfl⟩ := hsub.exists_put hfield
    have hput := (h.put (x := .record name ws) hname.symm).putField (Value.chainEnd_setChainEnd st rfl)
      (f := { f with wrapper := (Wrapper.settled S x).put v }) (hfield.put hty)
    rw [hput, Wrapper.put_put w rfl, hp, Nat.zero_add]
    refine h.rewrites_put (hws.set_field hx (Value.wellTyped_setChainEnd x hv) ?_) hname.symm
    exact Value.ty_setChainEnd hty

/-! ## The field at a path -/

theorem rewrites_fieldAt (h : Holds S st w) (hst : WellTyped S st) (path : List Nat) :
    Rewrites S w (w.fieldAt S path).value.2 := by
  cases path with
  | nil =>
    rw [Wrapper.fieldAt, h.isUnbound]
    exact h.rewrites_self hst
  | cons i rest =>
    obtain ⟨hv, hty⟩ := Value.wellTyped_descend (Value.wellTyped_chainEnd hst) i rest
    rw [h.value_fieldAt]
    exact h.rewrites_put hv (hty.trans h.ty_chainEnd)

/-- the wrapper on the field at a path, showing other contents of the same type, put back -/
theorem rewrites_putFieldAt (h : Holds S st w) (hst : WellTyped S st) {path : List Nat} {sub sub' : Wrapper}
    (hsub : (w.fieldAt S path).value.1 = .ok sub) (hsub' : Rewrites S sub sub') :
    Rewrites S w ((w.fieldAt S path).value.2.putFieldAt S path sub') := by
  obtain ⟨i, rest, x, rfl, hx, rfl⟩ := h.exists_of_fieldAt hsub
  have hend := Value.wellTyped_chainEnd hst
  obtain ⟨-, hsettled, -⟩ := Value.descend_found hend hx
  have hfield := Holds.of_settled S hsettled
  obtain ⟨v, hv, hty, rfl⟩ := hsub'.exists_put hfield
  obtain ⟨-, hdescendTy⟩ := Value.wellTyped_descend hend i rest
  obtain ⟨hput, hputTy⟩ := Value.wellTyped_putAt_descend hend hx (Value.wellTyped_setChainEnd x hv)
    (Value.ty_setChainEnd hty)
  have hw := h.put (hdescendTy.trans h.ty_chainEnd)
  have hpointer := Value.isPointer_of_ty (hdescendTy.trans h.ty_chainEnd)
  rw [h.value_fieldAt, hw.putFieldAt (hfield.put hty), Value.chainEnd_setChainEnd _ hpointer,
    Wrapper.put_put w hpointer]
  exact h.rewrites_put hput (hputTy.trans h.ty_chainEnd)

/-! ## Storage of its own -/

theorem eq_of_ownStorage? (h : Holds S st w) {x : Value} (hx : w.ownStorage? = some x) : x = st := by
  have hs := h.storage
  unfold Wrapper.ownStorage? at hx
  split at hx
  · next y hy =>
    rw [hy] at hs
    cases hx
    exact Option.some.inj hs
  · cases hx

end Holds

theorem Wrapper.isSome_ownStorage?_put (w : Wrapper) (v : Value) :
    (w.put v).ownStorage?.isSome = w.ownStorage?.isSome := by
  unfold put ownStorage?
  cases w.place <;> rfl

/-! ## Steps -/

namespace Script

variable {S : Schema} {w : Wrapper}

section

variable {steps : List Step}

theorem exec_field_of_none {tag : Option String} {i : Nat} (h : (w.fieldsFor S tag).value.1[i]? = none) :
    (exec S (.field tag i steps) w).value.2 = (w.fieldsFor S tag).value.2 := by
  rw [exec, Traced.value_bind]
  simp only [h]
  rfl

theorem exec_field_of_some {tag : Option String} {i : Nat} {f : Field}
    (h : (w.fieldsFor S tag).value.1[i]? = some f) :
    (exec S (.field tag i steps) w).value.2 =
      (w.fieldsFor S tag).value.2.putField { f with wrapper := (execAll S steps f.wrapper).value.2 } := by
  rw [exec, Traced.value_bind]
  simp only [h]
  rfl

theorem exec_fieldAt_of_error {path : List Nat} {e : Fault} (h : (w.fieldAt S path).value.1 = .error e) :
    (exec S (.fieldAt path steps) w).value.2 = (w.fieldAt S path).value.2 := by
  rw [exec, Traced.value_bind]
  cases hr : (w.fieldAt S path).value with
  | mk r w' =>
    rw [hr] at h
    cases h
    rfl

theorem exec_fieldAt_of_ok {path : List Nat} {sub : Wrapper} (h : (w.fieldAt S path).value.1 = .ok sub) :
    (exec S (.fieldAt path steps) w).value.2 =
      (w.fieldAt S path).value.2.putFieldAt S path (execAll S steps sub).value.2 := by
  rw [exec, Traced.value_bind]
  cases hr : (w.fieldAt S path).value with
  | mk r w' =>
    rw [hr] at h
    cases h
    rfl

end

theorem rewrites_execAll {steps : List Step}
    (hsteps : ∀ s ∈ steps, ∀ w, Built S w → Rewrites S w (exec S s w).value.2) (hw : Built S w) :
    Rewrites S w (execAll S steps w).value.2 := by
  induction steps generalizing w with
  | nil =>
    obtain ⟨st, hst, h⟩ := hw.holds
    rw [execAll]
    exact h.rewrites_self hst
  | cons s ss ih =>
    rw [List.forall_mem_cons] at hsteps
    have hstep := hsteps.1 w hw
    have hrest := ih hsteps.2 (hstep.built hw)
    rw [execAll]
    exact hstep.trans hw hrest

/-- **A step rewrites a wrapper, and nothing else of it changes.** By induction on the step: the steps inside rewrite
the wrapper of an element or of a field, which is then appended or put back. -/
theorem rewrites_exec {s : Step} (hs : s.Typed S) (hw : Built S w) : Rewrites S w (exec S s w).value.2 := by
  induction hs generalizing w with
  | assign hsrc =>
    obtain ⟨st, -, h⟩ := hw.holds
    rw [exec]
    exact h.rewrites_assign hsrc
  | reset =>
    obtain ⟨st, -, h⟩ := hw.holds
    rw [exec]
    exact h.rewrites_reset
  | append hitems =>
    obtain ⟨st, hst, h⟩ := hw.holds
    rw [exec]
    exact h.rewrites_append hst hitems
  | fill tag hl told =>
    obtain ⟨st, hst, h⟩ := hw.holds
    rw [exec]
    exact h.rewrites_fill hst tag hl
  | fields tag =>
    obtain ⟨st, hst, h⟩ := hw.holds
    rw [exec]
    exact h.rewrites_fieldsFor hst tag
  | freshElement hsteps appended ih =>
    obtain ⟨st, hst, h⟩ := hw.holds
    rw [exec, Traced.value_bind]
    cases helem : (w.freshElement S).run.value with
    | error e => exact h.rewrites_self hst
    | ok elem =>
      have hbuilt : Built S elem := .freshElement helem
      obtain ⟨x, hx, hx'⟩ := ((rewrites_execAll (fun s hs w => ih s hs) hbuilt).built hbuilt).holds
      cases appended with
      | false => exact h.rewrites_self hst
      | true =>
        refine h.rewrites_append hst ?_
        intro v hv
        rw [Option.mem_toList] at hv
        rw [hx'.eq_of_ownStorage? hv]
        exact hx
  | field tag i hsteps ih =>
    obtain ⟨st, hst, h⟩ := hw.holds
    cases hf : (w.fieldsFor S tag).value.1[i]? with
    | none =>
      rw [exec_field_of_none hf]
      exact h.rewrites_fieldsFor hst tag
    | some f =>
      have hmem := List.mem_of_getElem? hf
      rw [exec_field_of_some hf]
      exact h.rewrites_putField hst hmem (rewrites_execAll (fun s hs w => ih s hs) (.field hw hmem))
  | fieldAt path hsteps ih =>
    obtain ⟨st, hst, h⟩ := hw.holds
    cases hsub : (w.fieldAt S path).value.1 with
    | error e =>
      rw [exec_fieldAt_of_error hsub]
      exact h.rewrites_fieldAt hst path
    | ok sub =>
      rw [exec_fieldAt_of_ok hsub]
      exact h.rewrites_putFieldAt hst hsub (rewrites_execAll (fun s hs w => ih s hs) (.fieldAt hw hsub))
  | _ =>
    obtain ⟨st, hst, h⟩ := hw.holds
    rw [exec]
    exact h.rewrites_self hst

end Script

end DynAssign
