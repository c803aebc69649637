/-
Wrappers that only read.

A wrapper on a location that must not be written goes through the pointers that are there and allocates none. Where the
chain of declared types does not end in a dynamic slot, it shows the end of the chain, unless a pointer on it is nil
(`Value.of_content?_eq_some`, `Value.content?_eq_none_iff`). The fields of a record that is only read are only read
(`Wrapper.field_readOnly`), and no step changes such a wrapper (`Script.execAll_of_not_writable`).
-/
import DynAssign.Proofs.Paths
import DynAssign.Script

namespace DynAssign

namespace Value

/-- A chain of pointers that does not end in a dynamic slot shows its end. If a pointer on it is nil, it shows
nothing. -/
theorem content?_cases {v : Value} (h : v.ty.resolved ≠ .any) :
    (v.IsSettled ∧ v.content? = some v.chainEnd) ∨ (∃ t, v.chainEnd = .nil t) ∧ v.content? = none := by
  unfold IsSettled
  fun_induction content? v with
  | case1 t => exact .inr ⟨⟨t, rfl⟩, rfl⟩
  | case2 v ih => exact ih h
  | case3 v ih => exact ih h
  | case4 v => exact absurd rfl h
  | case5 v h1 h2 h3 h4 =>
    have hv : v.isPointer = false := by cases v <;> simp_all [isPointer, ty, Ty.isPointer]
    rw [chainEnd_of_not_isPointer hv]
    exact .inl ⟨hv, rfl⟩

theorem IsSettled.content? {v : Value} (hv : v.IsSettled) (h : v.ty.resolved ≠ .any) :
    v.content? = some v.chainEnd := by
  rcases content?_cases h with ⟨-, hc⟩ | ⟨⟨t, ht⟩, -⟩
  · exact hc
  · exact absurd ht (hv.chainEnd_ne_nil t)

theorem of_content?_eq_some {v x : Value} (hx : v.content? = some x) (h : v.ty.resolved ≠ .any) :
    v.IsSettled ∧ v.chainEnd = x := by
  rcases content?_cases h with ⟨hsettled, hc⟩ | ⟨-, hc⟩
  · exact ⟨hsettled, Option.some.inj (hc.symm.trans hx)⟩
  · rw [hc] at hx
    cases hx

theorem content?_eq_none_iff {v : Value} (h : v.ty.resolved ≠ .any) :
    v.content? = none ↔ ∃ t, v.chainEnd = .nil t := by
  rcases content?_cases h with ⟨hsettled, hc⟩ | ⟨hnil, hc⟩
  · rw [hc]
    constructor
    · intro hnone
      cases hnone
    · rintro ⟨t, ht⟩
      exact absurd ht (hsettled.chainEnd_ne_nil t)
  · exact ⟨fun _ => hnil, fun _ => hc⟩

end Value

namespace Wrapper

variable {S : Schema} {w : Wrapper}

theorem assign_of_no_target (ht : w.place.target? = none) (src : Value) : (w.assign S src).value.2 = w := by
  rw [assign.eq_def, ht]
  split <;> rfl

theorem reset_of_no_target (ht : w.place.target? = none) : (w.reset S).value.2 = w := by
  rw [reset, ht]
  split <;> rfl

/-- fields are put back into a writable record only -/
theorem foldl_putField_of_no_target (ht : w.place.target? = none) (fs : List Field) : fs.foldl putField w = w := by
  induction fs with
  | nil => rfl
  | cons f fs ih =>
    have hput : w.putField f = w := by
      unfold putField
      rw [ht]
      split <;> simp_all
    rw [List.foldl_cons, hput, ih]

theorem fieldsFor_of_no_target (ht : w.place.target? = none) (tag : Option String) :
    (w.fieldsFor S tag).value.2 = w := by
  have hfields : (w.fields S).value.2 = w := by
    rw [fields, ht]
    split <;> rfl
  cases tag with
  | none => exact hfields
  | some key => exact hfields

theorem visit_of_no_target (ht : w.place.target? = none) (tag : Option String) (rule : Field → Outcome) :
    (w.visit S tag rule).value.wrapper = w := by
  unfold visit
  split
  · rfl
  split
  · rfl
  simp only [Traced.value_bind, Traced.value_pure, fieldsFor_of_no_target ht]
  exact foldl_putField_of_no_target ht _

theorem append_of_not_writable (hw : w.writable = false) (items : List Value) : (w.append S items).value.2 = w := by
  unfold append
  split
  · rfl
  split
  · rfl
  rw [appendAll, hw]
  rfl

theorem fieldAt_of_no_target (ht : w.place.target? = none) (path : List Nat) :
    (w.fieldAt S path).value.2 = w ∧ ∃ e, (w.fieldAt S path).value.1 = .error e := by
  unfold fieldAt
  rw [ht]
  split
  · exact ⟨rfl, _, rfl⟩
  · cases path <;> exact ⟨rfl, _, rfl⟩

/-! ## Reading a location -/

section

variable {v : Value}

theorem contents?_readOnly (S : Schema) (v : Value) : (readOnly S v).contents? = v.content? := by
  unfold readOnly contents?
  cases v.content? <;> rfl

theorem target?_readOnly (S : Schema) (v : Value) : (readOnly S v).place.target? = none := by
  unfold readOnly
  cases v.content? <;> rfl

/-- an annotation picks fields and leaves their wrappers as they are -/
theorem exists_of_mem_fieldsFor {tag : Option String} {f : Field} (hf : f ∈ (w.fieldsFor S tag).value.1) :
    ∃ g ∈ (w.fields S).value.1, f.decl = g.decl ∧ f.wrapper = g.wrapper := by
  cases tag with
  | none => exact ⟨f, hf, rfl, rfl⟩
  | some key =>
    obtain ⟨g, hg, hfg⟩ := List.mem_filterMap.1 hf
    obtain ⟨value, -, rfl⟩ := Option.map_eq_some_iff.1 hfg
    exact ⟨g, hg, rfl, rfl⟩

theorem field_readOnly (hv : WellTyped S v) {tag : Option String} {f : Field}
    (hf : f ∈ ((readOnly S v).fieldsFor S tag).value.1) :
    f.decl ∈ (S.descriptor v.ty).fields ∧ ∃ x, WellTyped S x ∧ x.ty = f.decl.ty ∧ f.wrapper = readOnly S x := by
  obtain ⟨g, hg, hdecl, hwrap⟩ := exists_of_mem_fieldsFor hf
  rw [hdecl, hwrap]
  unfold fields at hg
  split at hg
  · cases hg
  next hrec =>
    have hrec : (readOnly S v).descriptor.isRecord = true := by simpa using hrec
    obtain ⟨name, hname⟩ := (S.isRecord_iff v.ty).1 hrec
    rw [target?_readOnly, contents?_readOnly] at hg
    cases hu : v.content? with
    | none =>
      rw [hu] at hg
      cases hg
    | some u =>
      obtain ⟨hsettled, rfl⟩ := Value.of_content?_eq_some hu (by simp [hname])
      obtain ⟨vs, hc⟩ := Value.eq_record_of_ty (hsettled.ty_chainEnd.trans hname)
      have hend := Value.wellTyped_chainEnd hv
      rw [hc] at hend hu
      rw [hu] at hg
      simp only [Option.map_some, Option.getD_some, fieldsOf_record_eq_map, Traced.value_pure, List.mem_map] at hg
      obtain ⟨⟨d, x⟩, hmem, rfl⟩ := hg
      obtain ⟨hvisible, hx, hxty⟩ := Value.wellTyped_of_mem_visibleWith hend hmem
      rw [S.fields_of_resolved_record hname]
      exact ⟨hvisible, x, hx, hxty, rfl⟩

end

end Wrapper

theorem Script.exec_of_not_writable (S : Schema) {w : Wrapper} (hw : w.writable = false) (ht : w.place.target? = none)
    (s : Step) : (exec S s w).value.2 = w := by
  cases s with
  | assign src =>
    rw [exec]
    exact Wrapper.assign_of_no_target ht src
  | reset =>
    rw [exec]
    exact Wrapper.reset_of_no_target ht
  | append items =>
    rw [exec]
    exact Wrapper.append_of_not_writable hw items
  | freshElement steps appended =>
    rw [exec, Traced.value_bind]
    cases (w.freshElement S).run.value with
    | error e => rfl
    | ok elem =>
      cases appended with
      | false => rfl
      | true => exact Wrapper.append_of_not_writable hw _
  | fields tag =>
    rw [exec]
    exact Wrapper.fieldsFor_of_no_target ht tag
  | field tag i steps =>
    rw [exec, Traced.value_bind]
    dsimp only
    rw [Wrapper.fieldsFor_of_no_target ht tag]
    cases (w.fieldsFor S tag).value.1[i]? with
    | none => rfl
    | some f => exact Wrapper.foldl_putField_of_no_target ht [_]
  | fieldAt path steps =>
    obtain ⟨hsame, e, he⟩ := Wrapper.fieldAt_of_no_target (S := S) ht path
    rw [exec, Traced.value_bind]
    cases hr : (w.fieldAt S path).value with
    | mk r w' =>
      rw [hr] at hsame he
      obtain rfl := hsame
      obtain rfl := he
      rfl
  | fill tag l told =>
    rw [exec]
    exact Wrapper.visit_of_no_target ht tag _
  | _ => rw [exec]; rfl

theorem Script.execAll_of_not_writable (S : Schema) {w : Wrapper} (hw : w.writable = false)
    (ht : w.place.target? = none) (steps : List Step) : (execAll S steps w).value.2 = w := by
  induction steps with
  | nil => rw [execAll]; rfl
  | cons s ss ih =>
    rw [execAll]
    simp only [Traced.value_bind, Traced.value_pure, exec_of_not_writable S hw ht, ih]

end DynAssign
