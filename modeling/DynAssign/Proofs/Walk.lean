/-
The loop over the fields of a record, as a walk along its declarations.

`Wrapper.visit` wraps the fields, hands the wrappers to a rule and puts what they store back by position. `walk` does
the same to the list of values at hand, with a rule on values: each field that takes part gets what the rule leaves,
up to the first fault, and the other fields stay. `Holds.value_visit` says that the two agree whenever the two rules
do.
-/
import DynAssign.Proofs.Assign

namespace DynAssign

/-- the key that a declared field is looked up by, none if it takes no part -/
def FieldDecl.key? (tag : Option String) (d : FieldDecl) : Option String :=
  if d.visible then match tag with
    | none => some d.name
    | some key => d.tags.lookup key
  else none

/-- what a walk leaves: the keys that were asked for, the outcome, and the values of all fields -/
structure Walked where
  asked : List String
  result : Except Fault Unit
  values : List Value

/-- a rule on values: key and name of a field and its storage give the outcome and the storage afterwards -/
abbrev FieldRule := (key name : String) → Value → Except Fault Unit × Value

/-- the rule applied to one field after another that takes part, up to the first fault -/
def walk (tag : Option String) (step : FieldRule) : List FieldDecl → List Value → Walked
  | d :: ds, v :: vs => match d.key? tag with
    | none =>
      let rest := walk tag step ds vs
      { rest with values := v :: rest.values }
    | some key => match step key d.name v with
      | (.error e, v) => ⟨[key], .error (.inField d.name e), v :: vs⟩
      | (.ok (), v) =>
        let rest := walk tag step ds vs
        ⟨key :: rest.asked, rest.result, v :: rest.values⟩
  | _, vs => ⟨[], .ok (), vs⟩

section

variable {tag : Option String} {step : FieldRule} {d : FieldDecl} {ds : List FieldDecl} {v x : Value} {vs : List Value}
  {key : String} {e : Fault}

theorem walk_cons_none (hk : d.key? tag = none) : walk tag step (d :: ds) (v :: vs) =
    ⟨(walk tag step ds vs).asked, (walk tag step ds vs).result, v :: (walk tag step ds vs).values⟩ := by
  rw [walk, hk]

theorem walk_cons_error (hk : d.key? tag = some key) (hstep : step key d.name v = (.error e, x)) :
    walk tag step (d :: ds) (v :: vs) = ⟨[key], .error (.inField d.name e), x :: vs⟩ := by
  rw [walk, hk]
  simp only [hstep]

theorem walk_cons_ok (hk : d.key? tag = some key) (hstep : step key d.name v = (.ok (), x)) :
    walk tag step (d :: ds) (v :: vs) =
      ⟨key :: (walk tag step ds vs).asked, (walk tag step ds vs).result, x :: (walk tag step ds vs).values⟩ := by
  rw [walk, hk]
  simp only [hstep]

end

/-- a rule on wrappers does to the storage of a field what the rule on values says -/
def Implements (S : Schema) (rule : Field → Outcome) (step : FieldRule) : Prop :=
  ∀ (d : VisibleField) (tagValue : Option String) (x : Value), x.IsSettled →
    let after := step (tagValue.getD d.name) d.name x
    (rule ⟨d, tagValue, .settled S x⟩).value.1 = after.1 ∧
      (rule ⟨d, tagValue, .settled S x⟩).value.2.storage? = some after.2

namespace Wrapper

variable {S : Schema} {tag : Option String}

/-! ## The wrappers along a walk -/

theorem fieldsWith_cons_none (S : Schema) {d : FieldDecl} (h : d.key? tag = none) (i p : Nat) (ds : List FieldDecl)
    (v : Value) (vs : List Value) :
    ∃ j, fieldsWith S tag i p (d :: ds) (v :: vs) = fieldsWith S tag j (p + 1) ds vs := by
  unfold FieldDecl.key? at h
  by_cases hd : d.visible
  · rw [if_pos hd] at h
    cases tag with
    | none => cases h
    | some key =>
      refine ⟨i + 1, ?_⟩
      rw [fieldsWith, visibleWith, if_pos hd, List.filterMap_cons_none (by simpa using h), fieldsWith]
  · refine ⟨i, ?_⟩
    rw [fieldsWith, visibleWith, if_neg hd, fieldsWith]

theorem fieldsWith_cons_some (S : Schema) {d : FieldDecl} {key : String} (h : d.key? tag = some key) (i p : Nat)
    (ds : List FieldDecl) (v : Value) (vs : List Value) :
    fieldsWith S tag i p (d :: ds) (v :: vs) =
      ⟨⟨d.name, d.ty, d.tags, i, p⟩, tag.map fun _ => key, settled S v⟩ :: fieldsWith S tag (i + 1) (p + 1) ds vs := by
  unfold FieldDecl.key? at h
  by_cases hd : d.visible
  · rw [if_pos hd] at h
    rw [fieldsWith, visibleWith, if_pos hd, fieldsWith]
    cases tag with
    | none => rfl
    | some k =>
      rw [List.filterMap_cons_some]
      simp only at h
      simp [h]
  · rw [if_neg hd] at h
    cases h

theorem visible_of_key? {d : FieldDecl} {key : String} (h : d.key? tag = some key) : d.visible = true := by
  unfold FieldDecl.key? at h
  split at h
  · assumption
  · cases h

theorem getD_key {d : FieldDecl} {key : String} (h : d.key? tag = some key) :
    (tag.map fun _ => key).getD d.name = key := by
  unfold FieldDecl.key? at h
  cases tag with
  | none => split at h <;> simp_all
  | some k => rfl

/-! ## Putting fields back -/

section

variable {w : Wrapper} {name : String}

theorem putField_record {vs : List Value} (hw : w.place.target? = some (.record name vs)) {f : Field} {x : Value}
    (hf : f.wrapper.storage? = some x) : w.putField f = w.put (.record name (vs.set f.decl.position x)) := by
  rw [putField, hf, hw]
  rfl

/-- a field put back at the end of the part that is done -/
theorem putField_next {done vs : List Value} {v : Value}
    (hw : w.place.target? = some (.record name (done ++ v :: vs))) {f : Field} {x : Value}
    (hf : f.wrapper.storage? = some x) (hp : f.decl.position = done.length) :
    w.putField f = w.put (.record name (done ++ x :: vs)) := by
  rw [putField_record hw hf, hp, List.set_append_right _ _ (Nat.le_refl _), Nat.sub_self, List.set_cons_zero]

/-- fields that nothing was done to are put back as they are -/
theorem foldl_putField_fieldsWith (S : Schema) (tag : Option String) (i : Nat) (ds : List FieldDecl)
    (vs done : List Value) (hw : w.place.target? = some (.record name (done ++ vs)))
    (hs : Value.VisibleSettled ds vs) :
    (fieldsWith S tag i done.length ds vs).foldl putField w = w := by
  induction ds generalizing i vs done with
  | nil => simp [fieldsWith, visibleWith]
  | cons d ds ih => cases vs with
    | nil => simp [fieldsWith, visibleWith]
    | cons v vs =>
      have hrest (j : Nat) := ih j vs (done ++ [v]) (by simpa using hw) hs.2
      simp only [List.length_append, List.length_singleton] at hrest
      cases hk : d.key? tag with
      | none =>
        obtain ⟨j, hj⟩ := fieldsWith_cons_none S hk i done.length ds v vs
        rw [hj]
        exact hrest j
      | some key =>
        have hv : v.IsSettled := hs.1 (visible_of_key? hk)
        have hput := putField_next (f := ⟨⟨d.name, d.ty, d.tags, i, done.length⟩, tag.map fun _ => key, settled S v⟩)
          hw (Holds.of_settled S hv).storage rfl
        rw [fieldsWith_cons_some S hk, List.foldl_cons, hput, put, Place.put_target hw rfl]
        exact hrest (i + 1)

theorem visitEach_cons_error {rule : Field → Outcome} {f : Field} {w' : Wrapper} {e : Fault}
    (h : (rule f).value = (.error e, w')) (fs : List Field) :
    (visitEach rule (f :: fs)).value = ([f.key], .error (.inField f.decl.name e), { f with wrapper := w' } :: fs) := by
  rw [visitEach, Traced.value_bind, h]
  rfl

theorem visitEach_cons_ok {rule : Field → Outcome} {f : Field} {w' : Wrapper} (h : (rule f).value = (.ok (), w'))
    (fs : List Field) :
    (visitEach rule (f :: fs)).value =
      (f.key :: (visitEach rule fs).value.1, (visitEach rule fs).value.2.1,
        { f with wrapper := w' } :: (visitEach rule fs).value.2.2) := by
  rw [visitEach, Traced.value_bind, h]
  rfl

/-- one turn of the loop: the wrapped field after the rule is put back as the value after the rule -/
theorem turn_fieldsWith {rule : Field → Outcome} {step : FieldRule} (hrule : Implements S rule step) {d : FieldDecl}
    {key : String} (hk : d.key? tag = some key) (i : Nat) {done vs : List Value} {v : Value}
    (hw : w.place.target? = some (.record name (done ++ v :: vs))) (hv : v.IsSettled) :
    let f : Field := ⟨⟨d.name, d.ty, d.tags, i, done.length⟩, tag.map fun _ => key, settled S v⟩
    ∃ r x w', step key d.name v = (r, x) ∧ (rule f).value = (r, w') ∧
      w.putField { f with wrapper := w' } = w.put (.record name (done ++ x :: vs)) := by
  intro f
  obtain ⟨hresult, hstorage⟩ := hrule f.decl f.tagValue v hv
  rw [show f.tagValue.getD f.decl.name = key from getD_key hk] at hresult hstorage
  refine ⟨_, _, (rule f).value.2, rfl, Prod.ext hresult rfl, ?_⟩
  exact putField_next hw hstorage rfl

/-- the loop over the wrapped fields does what the walk along their declarations does -/
theorem visitEach_fieldsWith (tag : Option String) {rule : Field → Outcome} {step : FieldRule}
    (hrule : Implements S rule step) (i : Nat) (ds : List FieldDecl) (vs done : List Value)
    (hw : w.place.target? = some (.record name (done ++ vs))) (hs : Value.VisibleSettled ds vs) :
    let after := (visitEach rule (fieldsWith S tag i done.length ds vs)).value
    let walked := walk tag step ds vs
    after.1 = walked.asked ∧ after.2.1 = walked.result ∧
      after.2.2.foldl putField w = w.put (.record name (done ++ walked.values)) := by
  have hsame : w.put (.record name (done ++ vs)) = w := by rw [put, Place.put_target hw rfl]
  induction ds generalizing i vs done w with
  | nil => exact ⟨rfl, rfl, hsame.symm⟩
  | cons d ds ih => cases vs with
    | nil => exact ⟨rfl, rfl, hsame.symm⟩
    | cons v vs =>
      cases hk : d.key? tag with
      | none =>
        obtain ⟨j, hj⟩ := fieldsWith_cons_none S hk i done.length ds v vs
        have hrest := ih j vs (done ++ [v]) (by simpa using hw) hs.2 (by simpa using hsame)
        rw [hj, walk_cons_none hk]
        simpa using hrest
      | some key =>
        obtain ⟨r, x, w', hstep, hvalue, hput⟩ := turn_fieldsWith hrule hk i hw (hs.1 (visible_of_key? hk))
        -- the wrapper after this field: the rest of the loop starts from it
        have hw' : (w.put (.record name (done ++ x :: vs))).place.target? =
            some (.record name ((done ++ [x]) ++ vs)) := by
          rw [put, Place.target?_put hw rfl]
          simp
        rw [fieldsWith_cons_some S hk]
        cases r with
        | error e =>
          have hrest := foldl_putField_fieldsWith S tag (i + 1) ds vs (done ++ [x]) hw' hs.2
          rw [List.length_append, List.length_singleton] at hrest
          rw [walk_cons_error hk hstep, visitEach_cons_error hvalue]
          refine ⟨congrArg (fun k => [k]) (getD_key hk), rfl, ?_⟩
          change List.foldl putField (w.putField _) _ = _
          rw [hput, hrest]
        | ok u =>
          have hagain (y : Value) : (w.put (.record name (done ++ x :: vs))).put y = w.put y := put_put w rfl y
          obtain ⟨hasked, hresult, hvalues⟩ := ih (i + 1) vs (done ++ [x]) hw' hs.2 (by simp [hagain])
          rw [List.length_append, List.length_singleton] at hasked hresult hvalues
          rw [walk_cons_ok hk hstep, visitEach_cons_ok hvalue]
          refine ⟨congrArg₂ List.cons (getD_key hk) hasked, hresult, ?_⟩
          change List.foldl putField (w.putField _) _ = _
          rw [hput, hvalues, hagain, List.append_assoc, List.singleton_append]

end

end Wrapper

/-- a rule on values applied to all fields of a record; any other value as it is -/
def walkRecord (S : Schema) (tag : Option String) (step : FieldRule) : Value → Walked × Value
  | .record name vs =>
    let walked := walk tag step (S.fields name) (Value.allocateVisible S (S.fields name) vs).value
    (walked, .record name walked.values)
  | v => (⟨[], .ok (), []⟩, v)

@[simp] theorem ty_walkRecord (S : Schema) (tag : Option String) (step : FieldRule) (v : Value) :
    (walkRecord S tag step v).2.ty = v.ty := by
  cases v <;> rfl

namespace Holds

variable {S : Schema} {st : Value} {w : Wrapper}

/-- **The loop over the fields is the walk.** A rule applied to the fields of a record asks for the keys, has the
outcome and leaves the contents that the rule on values gives. -/
theorem value_visit (h : Holds S st w) (tag : Option String) {rule : Field → Outcome} {step : FieldRule}
    (hrule : Implements S rule step) {name : String} (hname : st.ty.resolved = .record name) :
    (w.visit S tag rule).value =
      ⟨(walkRecord S tag step st.chainEnd).1.asked, (walkRecord S tag step st.chainEnd).1.result,
        w.put (walkRecord S tag step st.chainEnd).2⟩ := by
  obtain ⟨vs, hc⟩ := h.exists_record hname
  rw [hc]
  have hw := Place.target?_put (v := .record name (Value.allocateVisible S (S.fields name) vs).value) h.target rfl
  have hloop := Wrapper.visitEach_fieldsWith tag hrule 0 (S.fields name) _ [] (w := w.put _) hw
    (Value.visibleSettled_allocateVisible S _ _)
  obtain ⟨hasked, hresult, hput⟩ := hloop
  rw [Wrapper.visit, h.isUnbound, h.isRecord hc]
  simp only [Bool.false_eq_true, if_false, Bool.not_true, Traced.value_bind, h.fieldsFor hc tag, Traced.value_pure]
  simp only [List.length_nil, List.nil_append] at hasked hresult hput
  rw [hasked, hresult, hput, Wrapper.put_put w rfl]
  rfl

theorem value_visit_of_not_record (h : Holds S st w) (tag : Option String) (rule : Field → Outcome)
    (hname : ∀ name, st.ty.resolved ≠ .record name) :
    (w.visit S tag rule).value =
      ⟨[], .error (.unsupported (if tag.isSome then "fill_by_tag" else "fill") w.declaredName), w⟩ := by
  rw [Wrapper.visit, h.isUnbound, h.isRecord_eq_false hname]
  rfl

end Holds

end DynAssign
