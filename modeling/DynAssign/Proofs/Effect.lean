/-
What an answer does to a field, without wrappers.

`Answer.effect` gives the outcome and the new contents of a field from its old contents. It follows `Answer.feed`
answer by answer, but elements are values and records are walked in place.

Main statement: feeding an answer to the wrapper of a field has the outcome of `effect` and leaves the contents of
`effect` (`Answer.value_feed`). So has filling a whole record (`Holds.value_fill`).
-/
import DynAssign.Proofs.Walk

namespace DynAssign

/-- a rule on contents applied at the end of a storage's chain -/
def atEnd (rule : Value → Except Fault Unit × Value) (st : Value) : Except Fault Unit × Value :=
  ((rule st.chainEnd).1, st.setChainEnd (rule st.chainEnd).2)

/-- a zero element whose record the rule was applied to, behind the layers of the element type -/
def builtElement (S : Schema) (tag : Option String) (step : FieldRule) (e : Ty) : Except Fault Value :=
  match walkRecord S tag step (.zero S e.resolved) with
  | (walked, v) => walked.result.map fun _ => .layered e v

/-- the element type of a list of records, pointers of the element type aside -/
def recordElement? (S : Schema) : Ty → Option Ty
  | .slice e => if (S.descriptor e).isRecord then some e else none
  | _ => none

theorem eq_slice_of_recordElement? {S : Schema} {t e : Ty} (h : recordElement? S t = some e) :
    t = .slice e ∧ (S.descriptor e).isRecord = true := by
  unfold recordElement? at h
  split at h
  · split at h
    · cases h
      exact ⟨rfl, by assumption⟩
    · cases h
  · cases h

/-- What lookups do to contents: a list of records gets new elements, a record is filled by a rule, and anything else
is a fault. -/
def shaped (S : Schema) (elements : Ty → Except Fault Unit × List Value) (rule : Value → Except Fault Unit × Value)
    (fault : Fault) (v : Value) : Except Fault Unit × Value :=
  match recordElement? S v.ty with
  | some e => ((elements e).1, .list e (elements e).2)
  | none => if (S.descriptor v.ty).isRecord then rule v else (.error fault, v)

section

variable {S : Schema} {elements : Ty → Except Fault Unit × List Value} {rule : Value → Except Fault Unit × Value}

theorem shaped_of_records {v : Value} {e : Ty} (hty : v.ty = .slice e) (hrec : (S.descriptor e).isRecord = true)
    (fault : Fault) : shaped S elements rule fault v = ((elements e).1, .list e (elements e).2) := by
  rw [shaped, hty, recordElement?, if_pos hrec]

theorem shaped_of_record {v : Value} {name : String} (hty : v.ty = .record name) (fault : Fault) :
    shaped S elements rule fault v = rule v := by
  rw [shaped, hty]
  exact if_pos ((S.isRecord_iff (.record name)).2 ⟨name, rfl⟩)

theorem ty_shaped (hty : ∀ v, (rule v).2.ty = v.ty) (fault : Fault) (v : Value) :
    (shaped S elements rule fault v).2.ty = v.ty := by
  unfold shaped
  split
  · rename_i e he
    rw [(eq_slice_of_recordElement? he).1]
    rfl
  · split
    · exact hty v
    · rfl

/-- New elements do not depend on the old ones, so all depends on whether the rule of a record repeats. -/
theorem shaped_again (hty : ∀ v, (rule v).2.ty = v.ty) (hrule : ∀ v, rule (rule v).2 = rule v) (fault : Fault)
    (v : Value) :
    shaped S elements rule fault (shaped S elements rule fault v).2 = shaped S elements rule fault v := by
  have hsame : (shaped S elements rule fault v).2.ty = v.ty := ty_shaped hty fault v
  generalize hafter : shaped S elements rule fault v = after at hsame ⊢
  unfold shaped at hafter ⊢
  rw [hsame]
  cases he : recordElement? S v.ty with
  | some e =>
    rw [he] at hafter
    exact hafter
  | none =>
    simp only [he] at hafter ⊢
    by_cases hrec : (S.descriptor v.ty).isRecord
    · rw [if_pos hrec] at hafter ⊢
      rw [← hafter, hrule]
    · rw [if_neg hrec] at hafter ⊢
      rw [← hafter]

end

/-- the only element of a list, if it could be built -/
def onlyElement : Except Fault Value → Except Fault Unit × List Value
  | .ok x => (.ok (), [x])
  | .error e => (.error e, [])

/-- a walk over the fields of a record as a rule on contents -/
def recordRule (S : Schema) (tag : Option String) (step : FieldRule) (v : Value) : Except Fault Unit × Value :=
  ((walkRecord S tag step v).1.result, (walkRecord S tag step v).2)

/-- an element that could be built is what the rule leaves of a zero record -/
theorem eq_of_builtElement {S : Schema} {tag : Option String} {step : FieldRule} {e : Ty} {x : Value}
    (h : builtElement S tag step e = .ok x) :
    x = .layered e (recordRule S tag step (.zero S e.resolved)).2 := by
  unfold builtElement at h
  cases hr : (walkRecord S tag step (.zero S e.resolved)).1.result with
  | error err =>
    simp only [hr] at h
    cases h
  | ok r =>
    simp only [hr] at h
    cases h
    rfl

namespace Answer

mutual

/-- outcome and contents of a field that takes an answer, from its contents before -/
def effect (S : Schema) (tag : Option String) : Answer → (key name : String) → Value → Except Fault Unit × Value
  | nothing, _, _, v => Wrapper.assigned S v.ty .unit
  | value x, _, _, v => Wrapper.assigned S v.ty x
  | nested l, key, name, v =>
    let step : FieldRule := fun key name => atEnd (effect S tag (l key) key name)
    shaped S (fun e => onlyElement (builtElement S tag step e)) (recordRule S tag step)
      (.shapeMismatch key name "a getter") v
  | several ls, key, name, v =>
    shaped S (fun e => effectEach S tag ls 0 e) (fun v => effectLast S tag ls v)
      (.shapeMismatch key name "a list of getters") v

/-- one element per lookup, up to the first fault -/
def effectEach (S : Schema) (tag : Option String) :
    List (String → Answer) → Nat → Ty → Except Fault Unit × List Value
  | [], _, _ => (.ok (), [])
  | l :: ls, i, e => match builtElement S tag (fun key name => atEnd (effect S tag (l key) key name)) e with
    | .ok x => ((effectEach S tag ls (i + 1) e).1, x :: (effectEach S tag ls (i + 1) e).2)
    | .error err => (.error (.inElement i err), [])

/-- a record filled from the last of several lookups -/
def effectLast (S : Schema) (tag : Option String) : List (String → Answer) → Value → Except Fault Unit × Value
  | [], v => (.ok (), v)
  | [l], v => recordRule S tag (fun key name => atEnd (effect S tag (l key) key name)) v
  | _ :: l :: ls, v => effectLast S tag (l :: ls) v

end

end Answer

/-- the rule on values of a fill from a lookup -/
def Lookup.rule (S : Schema) (tag : Option String) (l : Lookup) : FieldRule :=
  fun key name => atEnd ((l key).effect S tag key name)

namespace Answer

variable {S : Schema} {tag : Option String}

/-! ## The clauses, with the rule of a lookup -/

theorem effect_nested (l : Lookup) (key name : String) (v : Value) :
    (nested l).effect S tag key name v =
      shaped S (fun e => onlyElement (builtElement S tag (l.rule S tag) e)) (recordRule S tag (l.rule S tag))
        (.shapeMismatch key name "a getter") v := rfl

theorem effect_several (ls : List Lookup) (key name : String) (v : Value) :
    (several ls).effect S tag key name v =
      shaped S (effectEach S tag ls 0) (effectLast S tag ls) (.shapeMismatch key name "a list of getters") v := rfl

theorem effectEach_cons (l : Lookup) (ls : List Lookup) (i : Nat) (e : Ty) :
    effectEach S tag (l :: ls) i e = match builtElement S tag (l.rule S tag) e with
      | .ok x => ((effectEach S tag ls (i + 1) e).1, x :: (effectEach S tag ls (i + 1) e).2)
      | .error err => (.error (.inElement i err), []) := rfl

/-- a record takes the last of several lookups, and stays as it is if there is none -/
theorem effectLast_eq (ls : List Lookup) (v : Value) :
    effectLast S tag ls v = match ls.getLast? with
      | some l => recordRule S tag (l.rule S tag) v
      | none => (.ok (), v) := by
  induction ls with
  | nil => rfl
  | cons l ls ih => cases ls with
    | nil => rfl
    | cons l' ls => exact ih

theorem ty_effectLast (ls : List Lookup) (v : Value) : (effectLast S tag ls v).2.ty = v.ty := by
  rw [effectLast_eq]
  split
  · exact ty_walkRecord S tag _ v
  · rfl

theorem ty_effect (S : Schema) (tag : Option String) (a : Answer) (key name : String) (v : Value) :
    (a.effect S tag key name v).2.ty = v.ty := by
  cases a with
  | nothing => exact Wrapper.ty_assigned S v.ty .unit
  | value x => exact Wrapper.ty_assigned S v.ty x
  | nested l => exact ty_shaped (ty_walkRecord S tag _) _ v
  | several ls => exact ty_shaped (ty_effectLast ls) _ v

/-! ## Feeding a wrapper -/

/-- feeding an answer to a field's wrapper does what the answer does to the field's contents -/
def Simulated (S : Schema) (tag : Option String) (a : Answer) : Prop :=
  ∀ (st : Value) (w : Wrapper), Holds S st w → ∀ (d : VisibleField) (tagValue : Option String),
    let after := a.effect S tag (tagValue.getD d.name) d.name st.chainEnd
    (a.feed S tag ⟨d, tagValue, w⟩).value = (after.1, w.put after.2)

/-- what is fed to fields by a lookup's answers is the rule of the lookup -/
theorem implements_asking {l : Lookup} (hl : ∀ key, Simulated S tag (l key)) :
    Implements S (Wrapper.asking l fun f => feed S tag (l f.key) f) (l.rule S tag) := by
  intro d tagValue x hx
  have hw := Holds.of_settled S hx
  have hfeed := hl (tagValue.getD d.name) x _ hw d tagValue
  have hty := ty_effect S tag (l (tagValue.getD d.name)) (tagValue.getD d.name) d.name x.chainEnd
  rw [hw.ty_chainEnd] at hty
  simp only [Wrapper.asking, Traced.value_bind, Field.key]
  rw [hfeed]
  exact ⟨rfl, (hw.put hty).storage⟩

theorem holdsRecords_eq {st : Value} {w : Wrapper} (h : Holds S st w) :
    w.holdsRecords = (recordElement? S st.ty.resolved).isSome := by
  have hslice := S.isSlice_iff st.ty
  rw [Wrapper.holdsRecords, h.descriptor, h.elemDescriptor]
  cases hr : st.ty.resolved with
  | slice e =>
    rw [hslice.2 ⟨e, hr⟩, Schema.elemType_of_resolved_slice S hr, recordElement?]
    by_cases hrec : (S.descriptor e).isRecord <;> simp [hrec]
  | _ =>
    have hno : (S.descriptor st.ty).isSlice = false := by
      rw [Bool.eq_false_iff, Ne, hslice]
      rintro ⟨e, he⟩
      rw [hr] at he
      cases he
    rw [hno, recordElement?, Bool.false_and, Option.isSome_none]
    simp

/-- The three shapes of a field that lookups come to: a list of records, a record, anything else. A wrapper on the field
tells them apart. -/
theorem shaped_cases {st : Value} {w : Wrapper} (h : Holds S st w) (elements : Ty → Except Fault Unit × List Value)
    (rule : Value → Except Fault Unit × Value) (fault : Fault) :
    (∃ e, st.ty.resolved = .slice e ∧ (S.descriptor e).isRecord = true ∧
      w.holdsRecords = true ∧ w.descriptor.isRecord = false ∧
      shaped S elements rule fault st.chainEnd = ((elements e).1, .list e (elements e).2)) ∨
    (∃ name, st.ty.resolved = .record name ∧ w.holdsRecords = false ∧ w.descriptor.isRecord = true ∧
      shaped S elements rule fault st.chainEnd = rule st.chainEnd) ∨
    (w.holdsRecords = false ∧ w.descriptor.isRecord = false ∧
      shaped S elements rule fault st.chainEnd = (.error fault, st.chainEnd)) := by
  rw [holdsRecords_eq h, h.descriptor, shaped, h.ty_chainEnd, S.descriptor_resolved]
  cases he : recordElement? S st.ty.resolved with
  | some e =>
    obtain ⟨ht, hrec⟩ := eq_slice_of_recordElement? he
    have hno : (S.descriptor st.ty).isRecord = false := by rw [← S.descriptor_resolved, ht]; rfl
    exact .inl ⟨e, ht, hrec, rfl, hno, rfl⟩
  | none =>
    by_cases hrec : (S.descriptor st.ty).isRecord
    · obtain ⟨name, hname⟩ := (S.isRecord_iff st.ty).1 hrec
      exact .inr (.inl ⟨name, hname, rfl, hrec, if_pos hrec⟩)
    · exact .inr (.inr ⟨rfl, by simpa using hrec, if_neg hrec⟩)

theorem value_pushBuilt (tag : Option String) {st : Value} {w : Wrapper} (h : Holds S st w)
    {rule : Field → Outcome} {step : FieldRule} (hrule : Implements S rule step) {e : Ty} {xs : List Value}
    (hc : st.chainEnd = .list e xs) (hrec : (S.descriptor e).isRecord = true) :
    (Wrapper.pushBuilt S (Wrapper.visit S tag rule) w).value = match builtElement S tag step e with
      | .ok x => (.ok (), w.put (.list e (xs ++ [x])))
      | .error err => (.error err, w) := by
  have he : st.ty.resolved = .slice e := h.resolved_of_chainEnd hc
  have helem : w.descriptor.elemType = some e := by rw [h.descriptor, Schema.elemType_of_resolved_slice S he]
  obtain ⟨name, hname⟩ := (S.isRecord_iff e).1 hrec
  have hown : Holds S (.fresh S e) (Wrapper.own S (.zero S e)).value := by
    have := Holds.own S (.zero S e)
    rwa [Value.allocate_zero] at this
  have hvisit := hown.value_visit tag hrule (by rw [Value.ty_fresh, hname])
  rw [Value.chainEnd_fresh] at hvisit
  rw [Wrapper.pushBuilt, Wrapper.freshElement_run S h.isUnbound helem]
  simp only [Traced.value_bind, hvisit, builtElement]
  cases (walkRecord S tag step (.zero S e.resolved)).1.result with
  | error err => rfl
  | ok u =>
    have hty : (Value.layered e (walkRecord S tag step (.zero S e.resolved)).2).ty = e :=
      Value.ty_layered (by rw [ty_walkRecord, Value.ty_zero])
    have hpush := Value.pushAll_list (List.forall_mem_singleton.2 hty) xs
    simp only [Wrapper.pushElement, Wrapper.ownStorage?_element, Wrapper.pushAll, h.target, hc, hpush]
    rfl

theorem value_reset {st : Value} {w : Wrapper} (h : Holds S st w) {e : Ty} (he : st.ty.resolved = .slice e) :
    (w.reset S).value = (.ok (), w.put (.list e [])) := by
  rw [Wrapper.reset_eq h, he, Value.zero]
  rfl

theorem value_feedEach {ls : List Lookup} (hls : ∀ l ∈ ls, ∀ key, Simulated S tag (l key)) {st : Value} {w : Wrapper}
    (h : Holds S st w) {e : Ty} {xs : List Value} (hc : st.chainEnd = .list e xs)
    (hrec : (S.descriptor e).isRecord = true) (i : Nat) :
    (feedEach S tag ls i w).value =
      ((effectEach S tag ls i e).1, w.put (.list e (xs ++ (effectEach S tag ls i e).2))) := by
  induction ls generalizing st w xs i with
  | nil =>
    have hsame := h.put_contents
    rw [hc] at hsame
    simp [feedEach, effectEach, hsame, Outcome.ok]
  | cons l ls ih =>
    have hpush := value_pushBuilt tag h (implements_asking (hls l List.mem_cons_self)) hc hrec
    rw [feedEach, Traced.value_bind, hpush, effectEach_cons]
    cases builtElement S tag (l.rule S tag) e with
    | error err =>
      have hsame := h.put_contents
      rw [hc] at hsame
      simp [Outcome.fault, hsame]
    | ok x =>
      have hty : (Value.list e (xs ++ [x])).ty = st.ty.resolved := (h.resolved_of_chainEnd hc).symm
      have hnext := ih (fun l' hl' => hls l' (List.mem_cons_of_mem _ hl')) (h.put hty)
        (Value.chainEnd_setChainEnd st rfl) (i + 1)
      simp only [hnext, List.append_assoc, List.singleton_append]
      rw [Wrapper.put_put w rfl]

theorem feedLast_eq (ls : List Lookup) (w : Wrapper) :
    feedLast S tag ls w = match ls.getLast? with
      | some l => Filled.outcome <$> Wrapper.visit S tag (Wrapper.asking l fun f => feed S tag (l f.key) f) w
      | none => .ok w := by
  induction ls with
  | nil => rfl
  | cons l ls ih => cases ls with
    | nil => rfl
    | cons l' ls => exact ih

theorem simulated_nested {l : Lookup} (hl : ∀ key, Simulated S tag (l key)) : Simulated S tag (.nested l) := by
  intro st w h d tagValue
  have hrule := implements_asking hl
  rw [feed, effect_nested]
  rcases shaped_cases h (fun e => onlyElement (builtElement S tag (l.rule S tag) e)) (recordRule S tag (l.rule S tag))
    (.shapeMismatch (tagValue.getD d.name) d.name "a getter") with
    ⟨e, he, hrec, hlist, hno, heq⟩ | ⟨name, hname, -, hrec, heq⟩ | ⟨hlist, hrec, heq⟩
  · -- a list of records: emptied, and one element put in
    have hpush := value_pushBuilt tag (h.put (x := .list e []) he.symm) hrule (Value.chainEnd_setChainEnd st rfl) hrec
    simp only [heq, hlist, hno, Bool.false_eq_true, if_false, if_true, Traced.value_bind, value_reset h he, hpush,
      List.nil_append]
    cases builtElement S tag (l.rule S tag) e with
    | ok x => simp only [onlyElement, Wrapper.put_put w (show (Value.list e []).isPointer = false from rfl)]
    | error err => rfl
  · simp [heq, hrec, h.value_visit tag hrule hname, Filled.outcome, recordRule]
  · simp [heq, hlist, hrec, Outcome.fault, h.put_contents, Field.key]

theorem simulated_several {ls : List Lookup} (hls : ∀ l ∈ ls, ∀ key, Simulated S tag (l key)) :
    Simulated S tag (.several ls) := by
  intro st w h d tagValue
  rw [feed, effect_several]
  rcases shaped_cases h (effectEach S tag ls 0) (effectLast S tag ls)
    (.shapeMismatch (tagValue.getD d.name) d.name "a list of getters") with
    ⟨e, he, hrec, hlist, -, heq⟩ | ⟨name, hname, hlist, hrec, heq⟩ | ⟨hlist, hrec, heq⟩
  · -- a list of records: emptied, and one element put in after another
    have heach := value_feedEach hls (h.put (x := .list e []) he.symm) (Value.chainEnd_setChainEnd st rfl) hrec 0
    simp only [heq, hlist, if_true, Traced.value_bind, value_reset h he, heach, List.nil_append]
    rw [Wrapper.put_put w rfl]
  · simp only [heq, hlist, hrec, Bool.false_eq_true, if_false, if_true]
    rw [feedLast_eq, effectLast_eq]
    cases hl : ls.getLast? with
    | none => simp [Outcome.ok, h.put_contents]
    | some l =>
      have hrule := implements_asking (hls l (List.mem_of_getLast? hl))
      simp [h.value_visit tag hrule hname, Filled.outcome, recordRule]
  · simp [heq, hlist, hrec, Outcome.fault, h.put_contents, Field.key]

/-- **An answer fed to a field does what its effect says.** -/
theorem value_feed (S : Schema) (tag : Option String) (a : Answer) : Simulated S tag a := by
  induction a using nestedInduction with
  | nothing =>
    intro st w h d tagValue
    rw [feed, Wrapper.value_assign h, effect, h.ty_chainEnd]
  | value v =>
    intro st w h d tagValue
    rw [feed, Wrapper.value_assign h, effect, h.ty_chainEnd]
  | nested l ih => exact simulated_nested ih
  | several ls ih => exact simulated_several ih

end Answer

namespace Holds

variable {S : Schema} {st : Value} {w : Wrapper}

/-- **Filling is walking.** A fill asks for the keys, has the outcome and leaves the contents of a walk along the
declarations with the rule of the lookup. -/
theorem value_fill (h : Holds S st w) {name : String} (hname : st.ty.resolved = .record name) (tag : Option String)
    (l : Lookup) :
    let after := walkRecord S tag (l.rule S tag) st.chainEnd
    (w.fill S tag l).value = ⟨after.1.asked, after.1.result, w.put after.2⟩ :=
  h.value_visit tag (Answer.implements_asking fun key => Answer.value_feed S tag (l key)) hname

end Holds

end DynAssign
