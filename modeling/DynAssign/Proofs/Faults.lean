/-
The faults that an operation on a writable wrapper can end with.

A fault is the input's: a value that does not convert, an answer of a shape that the field cannot take, a path that
leads nowhere. The other causes (`Fault.IsInternal`) stand for a wrapper that is bound to nothing, cannot write, does
not offer the operation, or puts an element of a wrong type into a list; a wrapper that can write never gives rise to
them, nor do the wrappers it builds on the way.

`Fault.OfConversion` and `Fault.OfAnswer` are the faults of an assignment and of a field that takes an answer, with the
context around the cause. They are found on the functions without wrappers: `Value.ofConversion_of_convert` on
conversion, `Answer.ofAnswer_of_effect` on answers, by induction over what is converted or answered.

Main statement, on every writable wrapper: `Built.faults`.
-/
import DynAssign.Lookup.Document
import DynAssign.Proofs.Effect

namespace DynAssign

/-! ## Faults by cause -/

namespace Fault

/-- a cause that is no matter of the input -/
def IsInternal : Fault → Prop
  | nilReceiver | notAssignable _ | unsupported _ _ | elementType _ _ => True
  | _ => False

/-- a value that does not convert, at any depth inside elements -/
inductive OfConversion : Fault → Prop
  | coercion (value target : String) : OfConversion (.coercion value target)
  | inElement (i : Nat) {e : Fault} (h : OfConversion e) : OfConversion (.inElement i e)

/-- what a field can fail to take: a value, lookups of the wrong shape, or a record that fails in one of its fields, by
itself or as an element -/
inductive OfAnswer : Fault → Prop
  | conversion {e : Fault} (h : OfConversion e) : OfAnswer e
  | shapeMismatch (key field got : String) : OfAnswer (.shapeMismatch key field got)
  | inField (name : String) {e : Fault} (h : OfAnswer e) : OfAnswer (.inField name e)
  | inElement (i : Nat) (name : String) {e : Fault} (h : OfAnswer e) : OfAnswer (.inElement i (.inField name e))

/-- a record fails in one of its fields -/
def OfRecord (e : Fault) : Prop := ∃ name inner, e = .inField name inner ∧ OfAnswer inner

theorem OfRecord.ofAnswer {e : Fault} (h : OfRecord e) : OfAnswer e := by
  obtain ⟨name, inner, rfl, hinner⟩ := h
  exact .inField name hinner

theorem OfRecord.inElement {e : Fault} (h : OfRecord e) (i : Nat) : OfAnswer (.inElement i e) := by
  obtain ⟨name, inner, rfl, hinner⟩ := h
  exact .inElement i name hinner

theorem OfConversion.cause {e : Fault} (h : OfConversion e) : ∃ value target, e.cause = .coercion value target := by
  induction h with
  | coercion value target => exact ⟨value, target, rfl⟩
  | inElement i h ih => exact ih

theorem OfAnswer.cause {e : Fault} (h : OfAnswer e) :
    (∃ value target, e.cause = .coercion value target) ∨ ∃ key field got, e.cause = .shapeMismatch key field got := by
  induction h with
  | conversion h => exact .inl h.cause
  | shapeMismatch key field got => exact .inr ⟨key, field, got, rfl⟩
  | inField name h ih => exact ih
  | inElement i name h ih => exact ih

theorem OfAnswer.not_isInternal {e : Fault} (h : OfAnswer e) : ¬IsInternal e.cause := by
  rcases h.cause with ⟨value, target, hcause⟩ | ⟨key, field, got, hcause⟩
  · rw [hcause]
    exact id
  · rw [hcause]
    exact id

end Fault

/-! ## Conversion -/

namespace Value

variable {S : Schema}

theorem ofConversion_of_coerce {src : Value} {t : Ty} {e : Fault} (h : src.coerce t = .error e) : e.OfConversion := by
  unfold coerce at h
  split at h
  · split at h
    · cases h
    · cases h
      exact .coercion _ _
  · cases h
    exact .coercion _ _

theorem ofConversion_of_convertLeaf {src : Value} {t : Ty} {e : Fault} (h : src.convertLeaf t = .error e) :
    e.OfConversion := by
  unfold convertLeaf at h
  split at h
  · cases h
  · exact ofConversion_of_coerce h

mutual

theorem ofConversion_of_convert {src : Value} {t : Ty} {e : Fault} (h : (convert S src t).run.value = .error e) :
    e.OfConversion := by
  cases hvoid : S.isVoid src.concrete.ty with
  | true =>
    rw [convert_of_isVoid hvoid] at h
    cases h
  | false =>
    by_cases hany : t = .any
    · rw [hany, convert_any hvoid] at h
      cases h
    by_cases hslice : ∃ elem, t = .slice elem
    · obtain ⟨elem, ht⟩ := hslice
      rw [ht, convert_slice hvoid] at h
      cases hu : src.concrete.content? with
      | none =>
        rw [hu] at h
        cases h
      | some u =>
        rw [hu] at h
        have hle : totalSize u.asItems ≤ sizeOf src :=
          Nat.le_trans (totalSize_asItems_le u) (Nat.le_trans (sizeOf_content?_le hu) (sizeOf_concrete_le src))
        obtain ⟨i, inner, rfl, hinner⟩ := ofConversion_of_convertAll u.asItems 0 elem (Attempt.map_eq_error.1 h)
        exact .inElement i hinner
    · rw [convert_single hvoid (fun elem helem => hslice ⟨elem, helem⟩) hany] at h
      split at h
      · cases h
      split at h
      · cases h
      rename_i u hu
      split at h
      · rw [Attempt.value_liftExcept] at h
        exact ofConversion_of_convertLeaf h
      rename_i xs hxs
      split at h
      · cases h
      rename_i x hx
      have hlt : sizeOf x < sizeOf src :=
        Nat.lt_of_lt_of_le (sizeOf_getLast?_lt hxs hx) (Nat.le_trans (sizeOf_content?_le hu) (sizeOf_concrete_le src))
      exact ofConversion_of_convert h
termination_by (sizeOf src, sizeOf t, 0)
decreasing_by
  · exact Prod.Lex.right' _ hle (Prod.Lex.left _ _ (by simp [ht]))
  · exact Prod.Lex.left _ _ hlt

theorem ofConversion_of_convertAll (srcs : List Value) (i : Nat) (elem : Ty) {e : Fault} :
    (convertAll S srcs i elem).run.value = .error e → ∃ j inner, e = .inElement j inner ∧ inner.OfConversion := by
  intro h
  match srcs with
  | [] =>
    rw [convertAll] at h
    cases h
  | src :: rest =>
    rcases convertAll_cons_eq_error.1 h with ⟨inner, hinner, rfl⟩ | ⟨-, hrest⟩
    · exact ⟨i, inner, rfl, ofConversion_of_convert hinner⟩
    · exact ofConversion_of_convertAll rest (i + 1) elem hrest
termination_by (totalSize srcs, sizeOf elem, srcs.length + 1)
decreasing_by
  · have h := elem.sizeOf_resolved_le
    refine Prod.Lex.right' _ (by simp [totalSize]) ?_
    exact Prod.Lex.right' _ h (by simp)
  · exact Prod.Lex.left _ _ (by have := sizeOf_pos src; simp [totalSize]; omega)

end

end Value

theorem Wrapper.ofConversion_of_assigned {S : Schema} {t : Ty} {src : Value} {e : Fault}
    (h : (assigned S t src).1 = .error e) : e.OfConversion := by
  unfold assigned at h
  split at h
  · cases h
  · rename_i e' he
    cases h
    exact Value.ofConversion_of_convert he

/-! ## Answers -/

section

variable {S : Schema} {tag : Option String} {step : FieldRule} {e : Fault}

/-- a walk fails where the rule does, and names the field -/
theorem exists_of_walk_error {ds : List FieldDecl} {vs : List Value} (h : (walk tag step ds vs).result = .error e) :
    ∃ key name v inner, (step key name v).1 = .error inner ∧ e = .inField name inner := by
  induction ds generalizing vs with
  | nil => cases h
  | cons d ds ih => cases vs with
    | nil => cases h
    | cons v vs =>
      cases hk : d.key? tag with
      | none =>
        rw [walk_cons_none hk] at h
        exact ih h
      | some key =>
        rcases hstep : step key d.name v with ⟨r, x⟩
        cases r with
        | error inner =>
          rw [walk_cons_error hk hstep] at h
          cases h
          exact ⟨key, d.name, v, inner, by rw [hstep], rfl⟩
        | ok u =>
          rw [walk_cons_ok hk hstep] at h
          exact ih h

variable (hstep : ∀ key name v e, (step key name v).1 = .error e → e.OfAnswer)
include hstep

theorem ofRecord_of_walkRecord {v : Value} (h : (walkRecord S tag step v).1.result = .error e) : e.OfRecord := by
  cases v with
  | record name vs =>
    obtain ⟨key, field, x, inner, hinner, rfl⟩ := exists_of_walk_error h
    exact ⟨field, inner, rfl, hstep key field x inner hinner⟩
  | _ => cases h

theorem ofRecord_of_builtElement {elem : Ty} (h : builtElement S tag step elem = .error e) : e.OfRecord := by
  unfold builtElement at h
  cases hr : (walkRecord S tag step (.zero S elem.resolved)).1.result with
  | error inner =>
    simp only [hr] at h
    cases h
    exact ofRecord_of_walkRecord hstep hr
  | ok u =>
    simp only [hr] at h
    cases h

end

theorem onlyElement_eq_error {x : Except Fault Value} {e : Fault} : (onlyElement x).1 = .error e ↔ x = .error e := by
  cases x <;> simp [onlyElement]

namespace Answer

variable {S : Schema} {tag : Option String} {e : Fault}

/-- lookups fail to fill the elements or the record they are for, or come to a field that is neither -/
theorem ofAnswer_of_shaped {elements : Ty → Except Fault Unit × List Value}
    {rule : Value → Except Fault Unit × Value} {key name got : String} {v : Value}
    (helements : ∀ elem, (elements elem).1 = .error e → e.OfAnswer) (hrule : ∀ v, (rule v).1 = .error e → e.OfAnswer)
    (h : (shaped S elements rule (.shapeMismatch key name got) v).1 = .error e) : e.OfAnswer := by
  unfold shaped at h
  split at h
  · exact helements _ h
  · split at h
    · exact hrule v h
    · cases h
      exact .shapeMismatch key name got

theorem ofAnswer_of_effectEach {ls : List Lookup}
    (hls : ∀ l ∈ ls, ∀ key name v e, (l.rule S tag key name v).1 = .error e → e.OfAnswer) {i : Nat} {elem : Ty}
    (h : (effectEach S tag ls i elem).1 = .error e) : e.OfAnswer := by
  induction ls generalizing i with
  | nil => cases h
  | cons l ls ih =>
    rw [effectEach_cons] at h
    cases hx : builtElement S tag (l.rule S tag) elem with
    | ok x =>
      rw [hx] at h
      exact ih (fun l' hl' => hls l' (List.mem_cons_of_mem _ hl')) h
    | error inner =>
      rw [hx] at h
      cases h
      exact (ofRecord_of_builtElement (hls l List.mem_cons_self) hx).inElement i

/-- a field fails to take an answer at a value that does not convert or at a shape it cannot take -/
theorem ofAnswer_of_effect (S : Schema) (tag : Option String) (a : Answer) :
    ∀ key name v e, (a.effect S tag key name v).1 = .error e → e.OfAnswer := by
  induction a using nestedInduction with
  | nothing =>
    intro key name v e h
    exact .conversion (Wrapper.ofConversion_of_assigned h)
  | value x =>
    intro key name v e h
    exact .conversion (Wrapper.ofConversion_of_assigned h)
  | nested l ih =>
    intro key name v e h
    have hl : ∀ key name v e, (l.rule S tag key name v).1 = .error e → e.OfAnswer :=
      fun key name v e h => ih key key name v.chainEnd e h
    rw [effect_nested] at h
    refine ofAnswer_of_shaped (fun elem h => ?_) (fun v h => (ofRecord_of_walkRecord hl h).ofAnswer) h
    exact (ofRecord_of_builtElement hl (onlyElement_eq_error.1 h)).ofAnswer
  | several ls ih =>
    intro key name v e h
    have hls : ∀ l ∈ ls, ∀ key name v e, (l.rule S tag key name v).1 = .error e → e.OfAnswer :=
      fun l hl key name v e h => ih l hl key key name v.chainEnd e h
    rw [effect_several] at h
    refine ofAnswer_of_shaped (fun elem h => ofAnswer_of_effectEach hls h) (fun v h => ?_) h
    rw [effectLast_eq] at h
    cases hlast : ls.getLast? with
    | none =>
      rw [hlast] at h
      cases h
    | some l =>
      rw [hlast] at h
      exact (ofRecord_of_walkRecord (hls l (List.mem_of_getLast? hlast)) h).ofAnswer

end Answer

theorem Lookup.ofAnswer_of_rule (S : Schema) (tag : Option String) (l : Lookup) (key name : String) (v : Value)
    (e : Fault) (h : (l.rule S tag key name v).1 = .error e) : e.OfAnswer :=
  Answer.ofAnswer_of_effect S tag (l key) key name v.chainEnd e h

/-! ## Paths -/

/-- a path leads past the last field of a record, or into something that is none -/
theorem Value.error_of_descend {S : Schema} {v : Value} {i : Nat} {path : List Nat} {e : Fault}
    (h : (v.descend S i path).value.1 = .error e) :
    (∃ j len typeName, e = .indexOutOfRange j len typeName) ∨ ∃ text, e = .invalidPath text := by
  induction path generalizing v i with
  | nil =>
    rw [descend] at h
    split at h
    · cases h
      exact .inr ⟨_, rfl⟩
    split at h
    · cases h
      exact .inl ⟨_, _, _, rfl⟩
    · cases h
  | cons j rest ih =>
    rw [descend] at h
    split at h
    · cases h
      exact .inr ⟨_, rfl⟩
    split at h
    · cases h
      exact .inl ⟨_, _, _, rfl⟩
    · exact ih h

/-! ## Operations on a wrapper -/

theorem Schema.exists_elemType (S : Schema) {t : Ty}
    (h : (S.descriptor t).isSlice = true ∨ (S.descriptor t).isMap = true) :
    ∃ elem, (S.descriptor t).elemType = some elem := by
  have ht := t.resolved_isPointer
  rw [Descriptor.isSlice, Descriptor.isMap, decide_eq_true_eq, decide_eq_true_eq] at h
  rw [descriptor] at h ⊢
  cases hr : t.resolved <;> simp_all [shape, Descriptor.ofShape, Descriptor.empty, Ty.isPointer]

/-- the faults of the operations that the contents of a wrapper offer -/
inductive Wrapper.Raises (S : Schema) (w : Wrapper) : Fault → Prop
  | reset {e : Fault} (h : (w.reset S).value.1 = .error e) : Raises S w e
  | assign (src : Value) {e : Fault} (h : (w.assign S src).value.1 = .error e) : Raises S w e
  | append (items : List Value) (hslice : w.descriptor.isSlice = true) {e : Fault}
    (h : (w.append S items).value.1 = .error e) : Raises S w e
  | freshElement (hcontainer : w.descriptor.isSlice = true ∨ w.descriptor.isMap = true) {e : Fault}
    (h : (w.freshElement S).run.value = .error e) : Raises S w e
  | fill (tag : Option String) (l : Lookup) (hrecord : w.descriptor.isRecord = true) {e : Fault}
    (h : (w.fill S tag l).value.result = .error e) : Raises S w e
  | fieldAt (path : List Nat) {e : Fault} (h : (w.fieldAt S path).value.1 = .error e) : Raises S w e

namespace Holds

variable {S : Schema} {st : Value} {w : Wrapper} {e : Fault}

theorem reset_ok (h : Holds S st w) : (w.reset S).value.1 = .ok () := by
  rw [Wrapper.reset_eq h]
  rfl

theorem ofConversion_of_assign (h : Holds S st w) {src : Value} (he : (w.assign S src).value.1 = .error e) :
    e.OfConversion := by
  rw [Wrapper.value_assign h] at he
  exact Wrapper.ofConversion_of_assigned he

theorem ofConversion_of_append (h : Holds S st w) (hslice : w.descriptor.isSlice = true) {items : List Value}
    (he : (w.append S items).value.1 = .error e) : ∃ i inner, e = .inElement i inner ∧ inner.OfConversion := by
  rw [h.descriptor, Schema.isSlice_iff] at hslice
  obtain ⟨elem, helem⟩ := hslice
  obtain ⟨xs, hc⟩ := h.exists_list helem
  rw [Wrapper.value_append h hc] at he
  cases hys : (Value.convertAll S items 0 elem).run.value with
  | ok ys =>
    rw [hys] at he
    cases he
  | error inner =>
    rw [hys] at he
    cases he
    exact Value.ofConversion_of_convertAll items 0 elem hys

theorem exists_freshElement (h : Holds S st w)
    (hcontainer : w.descriptor.isSlice = true ∨ w.descriptor.isMap = true) :
    ∃ elem, (w.freshElement S).run.value = .ok elem := by
  rw [h.descriptor] at hcontainer
  obtain ⟨elem, helem⟩ := S.exists_elemType hcontainer
  rw [← h.descriptor] at helem
  exact ⟨_, by rw [Wrapper.freshElement_run S h.isUnbound helem]⟩

theorem ofRecord_of_fill (h : Holds S st w) (hrecord : w.descriptor.isRecord = true) {tag : Option String} {l : Lookup}
    (he : (w.fill S tag l).value.result = .error e) : e.OfRecord := by
  obtain ⟨name, hname⟩ := h.isRecord_iff.1 hrecord
  rw [h.value_fill hname] at he
  exact ofRecord_of_walkRecord (l.ofAnswer_of_rule S tag) he

theorem error_of_fieldAt (h : Holds S st w) {path : List Nat} (he : (w.fieldAt S path).value.1 = .error e) :
    (∃ i len typeName, e = .indexOutOfRange i len typeName) ∨ ∃ text, e = .invalidPath text := by
  cases path with
  | nil =>
    rw [Wrapper.fieldAt.eq_def, h.isUnbound] at he
    cases he
    exact .inr ⟨_, rfl⟩
  | cons i rest =>
    rw [Wrapper.fieldAt.eq_def, h.isUnbound] at he
    simp only [Bool.false_eq_true, if_false, h.target, Traced.value_bind, Traced.value_pure] at he
    cases hr : (st.chainEnd.descend S i rest).value.1 with
    | ok x =>
      rw [hr] at he
      cases he
    | error inner =>
      rw [hr] at he
      cases he
      exact Value.error_of_descend hr

/-- no cause is internal -/
theorem not_isInternal_of_raises (h : Holds S st w) (he : w.Raises S e) : ¬e.cause.IsInternal := by
  cases he with
  | reset he =>
    rw [h.reset_ok] at he
    cases he
  | assign src he => exact (Fault.OfAnswer.conversion (h.ofConversion_of_assign he)).not_isInternal
  | append items hslice he =>
    obtain ⟨i, inner, rfl, hinner⟩ := h.ofConversion_of_append hslice he
    exact (Fault.OfAnswer.conversion (hinner.inElement i)).not_isInternal
  | freshElement hcontainer he =>
    obtain ⟨elem, helem⟩ := h.exists_freshElement hcontainer
    rw [helem] at he
    cases he
  | fill tag l hrecord he => exact (h.ofRecord_of_fill hrecord he).ofAnswer.not_isInternal
  | fieldAt path he =>
    rcases h.error_of_fieldAt he with ⟨i, len, typeName, rfl⟩ | ⟨text, rfl⟩
    · exact id
    · exact id

end Holds

/-- **A writable wrapper fails on its input only.** Resetting never fails, and neither does a fresh element of a
container. An assignment fails at a value that does not convert, an append at such a value in one of the items, a fill
in a field that meets such a value or an answer of a shape it cannot take, and a path by leading nowhere. No operation
that the contents offer fails for an internal cause, at any depth. -/
theorem Built.faults {S : Schema} {w : Wrapper} (hw : Built S w) :
    (w.reset S).value.1 = .ok () ∧
    (∀ src e, (w.assign S src).value.1 = .error e → e.OfConversion) ∧
    (w.descriptor.isSlice = true → ∀ items e, (w.append S items).value.1 = .error e →
      ∃ i inner, e = .inElement i inner ∧ inner.OfConversion) ∧
    (w.descriptor.isSlice = true ∨ w.descriptor.isMap = true → ∃ elem, (w.freshElement S).run.value = .ok elem) ∧
    (w.descriptor.isRecord = true → ∀ tag l e, (w.fill S tag l).value.result = .error e →
      (∃ name inner, e = .inField name inner ∧ inner.OfAnswer) ∧
        ((∃ value target, e.cause = .coercion value target) ∨
          ∃ key field got, e.cause = .shapeMismatch key field got)) ∧
    (∀ path e, (w.fieldAt S path).value.1 = .error e →
      (∃ i len typeName, e = .indexOutOfRange i len typeName) ∨ ∃ text, e = .invalidPath text) ∧
    ∀ e, w.Raises S e → ¬e.cause.IsInternal := by
  obtain ⟨st, -, h⟩ := hw.holds
  refine ⟨h.reset_ok, ?_, ?_, h.exists_freshElement, ?_, ?_, fun e he => h.not_isInternal_of_raises he⟩
  · intro src e he
    exact h.ofConversion_of_assign he
  · intro hslice items e he
    exact h.ofConversion_of_append hslice he
  · intro hrecord tag l e he
    have hfault := h.ofRecord_of_fill hrecord he
    exact ⟨hfault, hfault.ofAnswer.cause⟩
  · intro path e he
    exact h.error_of_fieldAt he

/-- a text in a row of bytes, in the second of two children: the fault names the field, the child, and the place in the
rows -/
theorem Built.faults_node :
    let row := Document.array [.number (.integer 1), .string "x"]
    let child := Document.object [("rows", .array [row])]
    let l := Document.lookup (.object [("children", .array [.object [], child])])
    let w := (Wrapper.own Sample.schema (.zero Sample.schema (.record "Node"))).value
    let inner := Fault.inElement 1 (.inField "rows" (.inElement 0 (.inElement 1 (.coercion "\"x\"" "u8"))))
    (w.fill Sample.schema none l).value.result = .error (.inField "children" inner) ∧ inner.OfAnswer ∧
      ¬(Fault.inField "children" inner).cause.IsInternal := by
  intro row child l w inner
  have hresult : (w.fill Sample.schema none l).value.result = .error (.inField "children" inner) := by cbv
  have hrecord : w.descriptor.isRecord = true := by cbv
  have hw : Built Sample.schema w := .own (Value.wellTyped_zero _ _)
  obtain ⟨-, -, -, -, hfill, -, hraises⟩ := hw.faults
  obtain ⟨⟨name, e, he, hanswer⟩, -⟩ := hfill hrecord none l _ hresult
  cases he
  exact ⟨hresult, hanswer, hraises _ (.fill none l hrecord hresult)⟩

end DynAssign
