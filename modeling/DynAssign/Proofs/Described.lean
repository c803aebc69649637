/-
A wrapper describes what it holds.

The descriptors of a wrapper are computed from a type, its contents are found by walking a value. `Wrapper.Describes`
says that the two agree for a writable wrapper on a declared type, `Wrapper.DescribesParts` that the wrappers made from
it are on the types declared for elements and fields, and `Wrapper.Views` says what agrees for a wrapper that only
reads.

Main statement: `Wrapper.describes_contents`, for all wrappers and after any steps. A writable wrapper holds a
well-typed storage (`Built.holds`), steps only rewrite its contents (`Script.rewrites_execAll`), and a storage with
rewritten contents is one of the same type (`Holds.put`).
-/
import DynAssign.Proofs.ReadOnly
import DynAssign.Proofs.Steps

namespace DynAssign

/-- what is known of a writable wrapper on a location of type t -/
structure Wrapper.Describes (S : Schema) (t : Ty) (w : Wrapper) : Prop where
  declared : w.declared = some t
  descriptor : w.descriptor = S.descriptor t
  elemDescriptor : w.elemDescriptor = w.descriptor.elemType.map S.descriptor
  writable : w.writable = true
  /-- there are contents, and they are what the descriptor describes -/
  contents : ∃ x, w.contents? = some x ∧ x.isPointer = false ∧ x.ty = t.resolved
  /-- the whole chain is there, down to the contents -/
  storage : ∃ st, w.storage? = some st ∧ WellTyped S st ∧ st.ty = t ∧ st.IsSettled ∧ w.contents? = some st.chainEnd
  /-- what the wrapper owns is all of it -/
  owned : ∀ st, w.ownStorage? = some st → w.storage? = some st

/-- the wrappers that are made from a wrapper on a location of type t are on the types declared for them -/
structure Wrapper.DescribesParts (S : Schema) (t : Ty) (w : Wrapper) : Prop where
  element : ∀ elem, (w.freshElement S).run.value = .ok elem →
    elem.declared = w.descriptor.elemType ∧ elem.ownStorage?.isSome = true
  field : ∀ tag, ∀ f ∈ (w.fieldsFor S tag).value.1, f.decl ∈ w.descriptor.fields ∧ f.wrapper.declared = some f.decl.ty
  fieldAt : ∀ path sub, (w.fieldAt S path).value.1 = .ok sub → sub.declared = S.typeAt? t path

/-- what is known of a wrapper that only reads a location that holds v -/
structure Wrapper.Views (S : Schema) (v : Value) (w : Wrapper) : Prop where
  declared : w.declared = some v.ty
  descriptor : w.descriptor = S.descriptor v.ty
  elemDescriptor : w.elemDescriptor = w.descriptor.elemType.map S.descriptor
  writable : w.writable = false
  /-- a nil pointer on the chain, and nothing else, hides the contents -/
  absent : v.ty.resolved ≠ .any → (w.contents? = none ↔ ∃ t, v.chainEnd = .nil t)
  present : v.ty.resolved ≠ .any → ∀ x, w.contents? = some x → x.isPointer = false ∧ x.ty = v.ty.resolved
  field : ∀ tag, ∀ f ∈ (w.fieldsFor S tag).value.1, f.decl ∈ w.descriptor.fields ∧
    ∃ x, WellTyped S x ∧ x.ty = f.decl.ty ∧ f.wrapper = .readOnly S x
  unchanged : ∀ steps, (Script.execAll S steps w).value.2 = w

section

variable {S : Schema} {st v : Value} {w : Wrapper}

theorem Holds.describes (h : Holds S st w) (hst : WellTyped S st) : w.Describes S st.ty where
  declared := h.declared
  descriptor := h.descriptor
  elemDescriptor := by rw [h.elemDescriptor, h.descriptor]
  writable := h.writable
  contents := ⟨st.chainEnd, h.contents, h.settled, h.ty_chainEnd⟩
  storage := ⟨st, h.storage, hst, rfl, h.settled, h.contents⟩
  owned x hx := by
    rw [h.eq_of_ownStorage? hx]
    exact h.storage

theorem Holds.describesParts (h : Holds S st w) (hst : WellTyped S st) : w.DescribesParts S st.ty where
  element elem helem := by
    obtain ⟨e, he, rfl⟩ := Wrapper.eq_own_of_freshElement helem
    have hown := (Holds.own S (Value.zero S e)).declared
    rw [Value.ty_allocate, Value.ty_zero] at hown
    exact ⟨hown.trans he.symm, rfl⟩
  field tag f hf := by
    rcases h.fieldsFor_cases hst tag with heq | ⟨name, ws, hname, hws, -, heq⟩
    · rw [heq] at hf
      cases hf
    · rw [heq] at hf
      obtain ⟨x, hmem, hwrap⟩ := Wrapper.wrapper_of_mem_fieldsWith hf
      obtain ⟨hvisible, -, hty⟩ := Value.wellTyped_of_mem_visibleWith hws hmem
      rw [h.descriptor, S.fields_of_resolved_record hname, hwrap, ← hty]
      exact ⟨hvisible, rfl⟩
  fieldAt path sub hsub := by
    obtain ⟨i, rest, x, rfl, hx, rfl⟩ := h.exists_of_fieldAt hsub
    obtain ⟨-, -, htype⟩ := Value.descend_found (Value.wellTyped_chainEnd hst) hx
    rw [h.ty_chainEnd, Schema.typeAt?, Ty.resolved_resolved] at htype
    exact htype.symm

theorem Wrapper.views_readOnly (hv : WellTyped S v) : (readOnly S v).Views S v where
  declared := rfl
  descriptor := rfl
  elemDescriptor := rfl
  writable := rfl
  absent hany := by
    rw [contents?_readOnly]
    exact Value.content?_eq_none_iff hany
  present hany x hx := by
    rw [contents?_readOnly] at hx
    obtain ⟨hsettled, rfl⟩ := Value.of_content?_eq_some hx hany
    exact ⟨hsettled, hsettled.ty_chainEnd⟩
  field _ _ hf := field_readOnly hv hf
  unchanged steps := Script.execAll_of_not_writable S rfl (target?_readOnly S v) steps

end

/-- **A wrapper describes what it holds.** Of every writable wrapper, however it came about, there is one declared type
that stays what it is through all steps: descriptors, contents, the chain around them and owned storage are those of
the type, and the wrappers made from it are on the types declared for elements and fields. A wrapper that only reads
shows contents of the resolved type unless a pointer on the chain is nil, and no step changes it. -/
theorem Wrapper.describes_contents (S : Schema) :
    (∀ v, (locate S v).value.declared = some v.ty ∧ (own S v).value.declared = some v.ty ∧
      (own S v).value.ownStorage?.isSome = true) ∧
    (∀ w, Built S w → ∃ t, ∀ steps, (∀ s ∈ steps, s.Typed S) →
      let after := (Script.execAll S steps w).value.2
      Built S after ∧ after.Describes S t ∧ after.DescribesParts S t ∧
        after.ownStorage?.isSome = w.ownStorage?.isSome) ∧
    ∀ v, WellTyped S v → (readOnly S v).Views S v := by
  refine ⟨?_, ?_, fun v hv => views_readOnly hv⟩
  · intro v
    have hlocate := (Holds.locate S v).declared
    have hown := (Holds.own S v).declared
    rw [Value.ty_allocate] at hlocate hown
    exact ⟨hlocate, hown, rfl⟩
  · intro w hw
    obtain ⟨st, hst, h⟩ := hw.holds
    refine ⟨st.ty, ?_⟩
    intro steps hsteps after
    have hafter : Rewrites S w after := Script.rewrites_execAll (fun s hs w => Script.rewrites_exec (hsteps s hs)) hw
    have hbuilt := hafter.built hw
    obtain ⟨v, hv, hty, heq⟩ := hafter.exists_put h
    have hholds := h.put hty
    have htyped := Value.wellTyped_setChainEnd st hv
    have hsame : (st.setChainEnd v).ty = st.ty := Value.ty_setChainEnd hty
    have hdescribes := hholds.describes htyped
    have hparts := hholds.describesParts htyped
    rw [hsame] at hdescribes hparts
    rw [heq] at hbuilt ⊢
    exact ⟨hbuilt, hdescribes, hparts, isSome_ownStorage?_put w v⟩

/-- a node behind a pointer that was nil: the weight fails to take a text, a child is filled and appended, and the node
itself fails to take a number. The pointer stays allocated throughout. To a wrapper that only reads, the node is
absent. -/
theorem Wrapper.describes_contents_node :
    let node : Value := .nil (.record "Node")
    let steps : List Step := [.fieldAt [1] [.assign (.literal "heavy")],
      .field (some "xml") 0 [.freshElement [.fill none Lookup.upper false] true],
      .assign (.scalar (.ofInt ⟨true, .w32⟩ 5))]
    let after := (Script.execAll Sample.schema steps (own Sample.schema node).value).value.2
    (∃ st, after.ownStorage? = some st ∧ st.ty = .option (.record "Node") ∧ st.IsSettled) ∧
      after.descriptor = Sample.schema.descriptor (.record "Node") ∧
      (readOnly Sample.schema node).contents? = none := by
  intro node steps after
  obtain ⟨hnew, hbuilt, hreadOnly⟩ := describes_contents Sample.schema
  have hnode : WellTyped Sample.schema node := .nil _
  obtain ⟨t, hsteps⟩ := hbuilt _ (.own hnode)
  have htyped : ∀ s ∈ steps, s.Typed Sample.schema := by
    simp only [steps, List.forall_mem_cons]
    refine ⟨.fieldAt _ ?_, .field _ _ ?_, .assign (.scalar _), by simp⟩
    · exact List.forall_mem_singleton.2 (.assign (.literal _))
    · have hfill : (Step.fill none Lookup.upper false).Typed Sample.schema := .fill _ (fun key => .value (.scalar _)) _
      exact List.forall_mem_singleton.2 (.freshElement (List.forall_mem_singleton.2 hfill) _)
  -- the declared type is that of the initial value
  have ht : some t = some (.option (.record "Node")) := by
    rw [← (hsteps [] (by simp)).2.1.declared]
    exact (hnew node).2.1
  cases ht
  obtain ⟨-, hdescribes, -, howned⟩ := hsteps steps htyped
  have hsome : after.ownStorage?.isSome = true := howned.trans (hnew node).2.2
  obtain ⟨st, hst⟩ := Option.isSome_iff_exists.1 hsome
  obtain ⟨st', hst', -, hty, hsettled, -⟩ := hdescribes.storage
  have hsame : st = st' := Option.some.inj ((hdescribes.owned st hst).symm.trans hst')
  refine ⟨⟨st, hst, ?_, ?_⟩, hdescribes.descriptor, ?_⟩
  · rw [hsame, hty]
  · rw [hsame]
    exact hsettled
  · exact ((hreadOnly node hnode).absent (by simp [node, Value.ty, Ty.resolved])).2 ⟨_, rfl⟩

end DynAssign
