/-
What a wrapper that only reads refuses.

Resetting, assignment, appending and a path to a field end in a fault at once, and none of them allocates. A fill has no
check of its own: it is refused by the first field that has something to write, so a fill that comes to no such field
succeeds without a word. `Idle` says when: the record is not there at all, because a pointer on its chain is nil, or
each of its fields is answered lookups that are idle at the field.

- `Answer.refused_feed`: a field that is only read takes an answer iff the answer is idle there, by induction on the
  answer.
- `Wrapper.readOnly_refuses`: the main statement, on every wrapper on a location that must not be written. Its fields
  are wrappers of this kind again.
-/
import DynAssign.Proofs.Navigation
import DynAssign.Proofs.ReadOnly

namespace DynAssign

/-- a fault for want of a location to write to, or of a record to fill -/
def Fault.IsRefusal : Fault → Prop
  | notAssignable _ | shapeMismatch _ _ _ => True
  | _ => False

theorem Fault.isRefusal_notAssignable (typeName : String) : (notAssignable typeName).cause.IsRefusal := trivial

theorem Fault.isRefusal_shapeMismatch (key field got : String) : (shapeMismatch key field got).cause.IsRefusal :=
  trivial

/-- An answer has nothing to write to a value. -/
inductive Idle (S : Schema) (tag : Option String) : Answer → Value → Prop where
  /-- lookups come to no field, because a pointer on the chain of the record is nil -/
  | absent {a : Answer} {v : Value} {name : String} (ha : a.isLookups = true) (hname : v.ty.resolved = .record name)
    (hv : v.content? = none) : Idle S tag a v
  /-- there are no lookups to fill the record from -/
  | empty {v : Value} {name : String} (hname : v.ty.resolved = .record name) : Idle S tag (.several []) v
  /-- a record is filled, and all answers to its fields are idle -/
  | record {a : Answer} {l : Lookup} {v : Value} {name : String} {vs : List Value} (ha : a.inPlace? = some l)
    (hname : v.ty.resolved = .record name) (hv : v.content? = some (.record name vs))
    (hfields : ∀ d x key, (d, x) ∈ (S.fields name).zip vs → d.key? tag = some key → Idle S tag (l key) x) :
    Idle S tag a v

/-- an operation that is refused unless there is nothing to write, and allocates nothing -/
structure Refused (idle : Prop) (result : Except Fault Unit) (log : List Event) : Prop where
  ok_iff : result = .ok () ↔ idle
  cause : ∀ e, result = .error e → e.cause.IsRefusal
  no_allocation : ∀ t, .allocated t ∉ log

/-! ## The fields that are only read -/

/-- what is read off the visible fields by their names and annotations is read off the declarations -/
theorem filterMap_visibleWith {α : Type} (F : String → Tags → Value → Option α) (i p : Nat) (ds : List FieldDecl)
    (vs : List Value) :
    ((visibleWith i p ds vs).filterMap fun gx => F gx.1.name gx.1.tags gx.2) =
      (ds.zip vs).filterMap fun dx => if dx.1.visible then F dx.1.name dx.1.tags dx.2 else none := by
  induction ds generalizing i p vs with
  | nil => rfl
  | cons d ds ih => cases vs with
    | nil => rfl
    | cons v vs =>
      rw [visibleWith, List.zip_cons_cons, List.filterMap_cons, ← ih (if d.visible then i + 1 else i) (p + 1)]
      cases d.visible with
      | false => rfl
      | true => rfl

namespace Wrapper

variable {S : Schema} {tag : Option String} {v : Value} {name : String} {vs : List Value}

theorem fieldsFor_readOnly_of_none (hv : v.content? = none) :
    ((readOnly S v).fieldsFor S tag).value.1 = [] := by
  have hfields : ((readOnly S v).fields S).value.1 = [] := by
    rw [fields, target?_readOnly, contents?_readOnly, hv]
    split <;> rfl
  cases tag with
  | none => exact hfields
  | some key =>
    rw [fieldsFor, taggedFields, Traced.value_bind]
    simp [hfields, tagged]

theorem log_fieldsFor_of_no_target {w : Wrapper} (ht : w.place.target? = none) (tag : Option String) :
    (w.fieldsFor S tag).log = [] := by
  have hfields : (w.fields S).log = [] := by
    rw [fields, ht]
    split <;> rfl
  cases tag with
  | none => exact hfields
  | some key =>
    rw [fieldsFor, taggedFields, Traced.log_bind, hfields]
    rfl

/-- the fields of a record that is only read, by key, are those that take part, and are only read themselves -/
theorem map_fieldsFor_readOnly (S : Schema) (tag : Option String) (hname : v.ty.resolved = .record name)
    (hv : v.content? = some (.record name vs)) :
    (((readOnly S v).fieldsFor S tag).value.1.map fun f => (f.key, f.wrapper)) =
      ((S.fields name).zip vs).filterMap fun dx => (dx.1.key? tag).map fun key => (key, readOnly S dx.2) := by
  have hrec : (readOnly S v).descriptor.isRecord = true := (S.isRecord_iff v.ty).2 ⟨name, hname⟩
  have hfields : ((readOnly S v).fields S).value.1 =
      (visibleWith 0 0 (S.fields name) vs).map fun gx => ⟨gx.1, none, readOnly S gx.2⟩ := by
    rw [fields, hrec, target?_readOnly, contents?_readOnly, hv]
    simp [fieldsOf_record_eq_map]
  cases tag with
  | none =>
    have hdecls := filterMap_visibleWith (fun name _ x => some (name, readOnly S x)) 0 0 (S.fields name) vs
    rw [List.filterMap_eq_map'] at hdecls
    rw [fieldsFor, hfields, List.map_map]
    refine hdecls.trans (List.filterMap_congr fun dx _ => ?_)
    cases hd : dx.1.visible <;> simp [FieldDecl.key?, hd]
  | some tagKey =>
    have hdecls := filterMap_visibleWith
      (fun _ tags x => (tags.lookup tagKey).map fun key => (key, readOnly S x)) 0 0 (S.fields name) vs
    have htagged : ((readOnly S v).fieldsFor S (some tagKey)).value.1 =
        tagged tagKey ((readOnly S v).fields S).value.1 := rfl
    rw [htagged, hfields, tagged, List.filterMap_map, List.map_filterMap]
    refine Eq.trans (List.filterMap_congr fun gx _ => ?_) (hdecls.trans (List.filterMap_congr fun dx _ => ?_))
    · simp [Field.key, Option.map_map, Function.comp_def]
    · cases hd : dx.1.visible <;> simp [FieldDecl.key?, hd]

theorem exists_field_readOnly (hname : v.ty.resolved = .record name) (hv : v.content? = some (.record name vs))
    {key : String} {u : Wrapper} :
    (∃ f ∈ ((readOnly S v).fieldsFor S tag).value.1, f.key = key ∧ f.wrapper = u) ↔
      ∃ d x, (d, x) ∈ (S.fields name).zip vs ∧ d.key? tag = some key ∧ readOnly S x = u := by
  have hmem := congrArg ((key, u) ∈ ·) (map_fieldsFor_readOnly S tag hname hv)
  simpa using hmem

end Wrapper

/-! ## Fills -/

namespace Refused

theorem of_error {e : Fault} (he : e.cause.IsRefusal) : Refused False (.error e) [] where
  ok_iff := by simp
  cause e' he' := by
    cases he'
    exact he
  no_allocation t := by simp

theorem mono {idle idle' : Prop} {result : Except Fault Unit} {log : List Event} (h : Refused idle result log)
    (hidle : idle ↔ idle') : Refused idle' result log :=
  ⟨h.ok_iff.trans hidle, h.cause, h.no_allocation⟩

end Refused

section

variable {S : Schema} {tag : Option String}

/-- the loop over fields is idle iff the rule is at each of them -/
theorem refused_visitEach {rule : Field → Outcome} (idle : Field → Prop) {fs : List Field}
    (h : ∀ f ∈ fs, Refused (idle f) (rule f).value.1 (rule f).log) :
    Refused (∀ f ∈ fs, idle f) (Wrapper.visitEach rule fs).value.2.1 (Wrapper.visitEach rule fs).log := by
  induction fs with
  | nil => exact ⟨by simp [Wrapper.visitEach], by simp [Wrapper.visitEach], by simp [Wrapper.visitEach]⟩
  | cons f fs ih =>
    rw [List.forall_mem_cons] at h
    obtain ⟨hfirst, hrest⟩ := h
    have hrest := ih hrest
    rw [List.forall_mem_cons]
    rw [Wrapper.visitEach, Traced.value_bind, Traced.log_bind]
    rcases hr : (rule f).value with ⟨inner | u, w⟩
    · rw [hr] at hfirst
      refine ⟨?_, ?_, ?_⟩
      · have hbusy : ¬idle f := fun hidle => by cases hfirst.ok_iff.2 hidle
        simp [hbusy]
      · intro e he
        cases he
        exact hfirst.cause inner rfl
      · simpa using hfirst.no_allocation
    · rw [hr] at hfirst
      refine ⟨?_, hrest.cause, ?_⟩
      · rw [← hrest.ok_iff, ← hfirst.ok_iff]
        simp
      · intro t ht
        rcases List.mem_append.1 ht with ht | ht
        · exact hfirst.no_allocation t ht
        · exact hrest.no_allocation t (by simpa using ht)

/-- the answers of a lookup are refused at the fields that are only read, unless they are idle -/
def Lookup.RefusedAtFields (S : Schema) (tag : Option String) (l : Lookup) : Prop :=
  ∀ key (f : Field) x, WellTyped S x → f.wrapper = .readOnly S x →
    Refused (Idle S tag (l key) x) ((l key).feed S tag f).value.1 ((l key).feed S tag f).log

/-- lookups at a record: it is not there, or all answers to its fields are idle -/
theorem idle_iff {a : Answer} {l : Lookup} (ha : a.inPlace? = some l) {v : Value} {name : String}
    (hname : v.ty.resolved = .record name) :
    Idle S tag a v ↔ v.content? = none ∨ ∃ vs, v.content? = some (.record name vs) ∧
      ∀ d x key, (d, x) ∈ (S.fields name).zip vs → d.key? tag = some key → Idle S tag (l key) x := by
  constructor
  · intro h
    cases h with
    | absent _ _ hv => exact .inl hv
    | empty _ => cases ha
    | record ha' hname' hv hfields =>
      obtain rfl := Option.some.inj (ha'.symm.trans ha)
      obtain rfl := Ty.record.inj (hname'.symm.trans hname)
      exact .inr ⟨_, hv, hfields⟩
  · rintro (hv | ⟨vs, hv, hfields⟩)
    · refine .absent ?_ hname hv
      cases a <;> simp_all [Answer.inPlace?, Answer.isLookups]
    · exact .record ha hname hv hfields

/-- the outcome and the events of a loop over the fields of a record that is only read are those of its turns -/
theorem visit_readOnly (tag : Option String) (rule : Field → Outcome) {v : Value}
    (hrec : (S.descriptor v.ty).isRecord = true) :
    let turns := Wrapper.visitEach rule ((Wrapper.readOnly S v).fieldsFor S tag).value.1
    ((Wrapper.readOnly S v).visit S tag rule).value.result = turns.value.2.1 ∧
      ((Wrapper.readOnly S v).visit S tag rule).log = turns.log := by
  intro turns
  have hbound : (Wrapper.readOnly S v).isUnbound = false := rfl
  have hrec : (Wrapper.readOnly S v).descriptor.isRecord = true := hrec
  have hlog := Wrapper.log_fieldsFor_of_no_target (S := S) (Wrapper.target?_readOnly S v) tag
  constructor
  · simp [Wrapper.visit, hbound, hrec, turns]
  · simp [Wrapper.visit, hbound, hrec, hlog, turns]

/-- a record that is only read refuses a fill at the first field whose answer is not idle -/
theorem refused_visit {l : Lookup} (hl : l.RefusedAtFields S tag) {v : Value} (hv : WellTyped S v) {name : String}
    (hname : v.ty.resolved = .record name) {a : Answer} (ha : a.inPlace? = some l) :
    let filled := (Wrapper.readOnly S v).visit S tag (Wrapper.asking l fun f => (l f.key).feed S tag f)
    Refused (Idle S tag a v) filled.value.result filled.log := by
  intro filled
  obtain ⟨hresult, hlog⟩ := visit_readOnly tag (Wrapper.asking l fun f => (l f.key).feed S tag f)
    ((S.isRecord_iff v.ty).2 ⟨name, hname⟩)
  rw [hresult, hlog]
  rcases hc : v.content? with _ | u
  · -- there is no record, so there are no fields
    rw [Wrapper.fieldsFor_readOnly_of_none hc]
    refine (refused_visitEach (fun _ => False) (by simp)).mono ?_
    rw [idle_iff ha hname]
    simp [hc]
  · obtain ⟨hsettled, rfl⟩ := Value.of_content?_eq_some hc (by simp [hname])
    obtain ⟨vs, hvs⟩ := Value.eq_record_of_ty (hsettled.ty_chainEnd.trans hname)
    have hend := Value.wellTyped_chainEnd hv
    rw [hvs] at hc hend
    have htyped {d : FieldDecl} {x : Value} (hzip : (d, x) ∈ (S.fields name).zip vs) : WellTyped S x :=
      (WellTyped.record_iff.1 hend).2 x (List.of_mem_zip hzip).2
    refine (refused_visitEach (fun f => ((l f.key).feed S tag f).value.1 = .ok ()) ?_).mono ?_
    · intro f hf
      obtain ⟨d, x, hzip, -, hwrap⟩ := (Wrapper.exists_field_readOnly hname hc).1 ⟨f, hf, rfl, rfl⟩
      have hfeed := hl f.key f x (htyped hzip) hwrap.symm
      exact ⟨Iff.rfl, hfeed.cause, fun t => by simpa [Wrapper.asking] using hfeed.no_allocation t⟩
    · rw [idle_iff ha hname]
      constructor
      · intro hidle
        refine .inr ⟨vs, hc, fun d x key hzip hk => ?_⟩
        obtain ⟨f, hf, rfl, hwrap⟩ := (Wrapper.exists_field_readOnly (S := S) hname hc).2 ⟨d, x, hzip, hk, rfl⟩
        exact (hl f.key f x (htyped hzip) hwrap).ok_iff.1 (hidle f hf)
      · rintro (hnone | ⟨vs', hc', hidle⟩) f hf
        · cases hnone.symm.trans hc
        · obtain ⟨-, rfl⟩ := Value.record.inj (Option.some.inj (hc'.symm.trans hc))
          obtain ⟨d, x, hzip, hk, hwrap⟩ := (Wrapper.exists_field_readOnly hname hc).1 ⟨f, hf, rfl, rfl⟩
          exact (hl f.key f x (htyped hzip) hwrap.symm).ok_iff.2 (hidle d x f.key hzip hk)

end

/-! ## Single operations -/

namespace Wrapper

variable {S : Schema} {v : Value}

theorem assign_readOnly (src : Value) :
    (readOnly S v).assign S src = .fault (.notAssignable (readOnly S v).declaredName) (readOnly S v) := by
  rw [assign.eq_def, target?_readOnly]
  rfl

theorem reset_readOnly :
    (readOnly S v).reset S = .fault (.notAssignable (readOnly S v).declaredName) (readOnly S v) := by
  rw [reset, target?_readOnly]
  rfl

theorem append_readOnly (items : List Value) :
    (readOnly S v).append S items = .fault (if (readOnly S v).descriptor.isSlice
      then .notAssignable (readOnly S v).declaredName else .unsupported "append" (readOnly S v).declaredName)
      (readOnly S v) := by
  have hbound : (readOnly S v).isUnbound = false := rfl
  cases hslice : (readOnly S v).descriptor.isSlice with
  | false => simp [append, hbound, hslice]
  | true =>
    have happend : (readOnly S v).appendAll S items = .fault (readOnly S v).notAssignable (readOnly S v) := by
      rw [appendAll]
      rfl
    simp [append, hbound, hslice, happend, notAssignable]

theorem fieldAt_readOnly (path : List Nat) :
    (readOnly S v).fieldAt S path = pure (.error (if path = [] then .invalidPath "empty index path"
      else .notAssignable (readOnly S v).declaredName), readOnly S v) := by
  have hbound : (readOnly S v).isUnbound = false := rfl
  cases path <;> simp [fieldAt, hbound, target?_readOnly]

end Wrapper

/-! ## Answers -/

section

variable {S : Schema} {tag : Option String}

theorem Idle.isRecord {a : Answer} {v : Value} (h : Idle S tag a v) : (S.descriptor v.ty).isRecord = true := by
  cases h with
  | absent ha hname hv => exact (S.isRecord_iff v.ty).2 ⟨_, hname⟩
  | empty hname => exact (S.isRecord_iff v.ty).2 ⟨_, hname⟩
  | record ha hname hv hfields => exact (S.isRecord_iff v.ty).2 ⟨_, hname⟩

theorem Idle.isLookups {a : Answer} {v : Value} (h : Idle S tag a v) : a.isLookups = true := by
  cases h with
  | absent ha hname hv => exact ha
  | empty hname => rfl
  | record ha hname hv hfields => cases a <;> simp_all [Answer.inPlace?, Answer.isLookups]

theorem not_isRecord_of_holdsRecords {w : Wrapper} (h : w.holdsRecords = true) : w.descriptor.isRecord = false := by
  rw [Wrapper.holdsRecords, Bool.and_eq_true, Descriptor.isSlice, decide_eq_true_eq] at h
  rw [Descriptor.isRecord, h.1]
  rfl

namespace Answer

theorem refused_assign {a : Answer} (ha : a.isLookups = false) (src : Value) {f : Field} {x : Value}
    (hf : f.wrapper = .readOnly S x) :
    Refused (Idle S tag a x) (f.wrapper.assign S src).value.1 (f.wrapper.assign S src).log := by
  rw [hf, Wrapper.assign_readOnly]
  refine (Refused.of_error (Fault.isRefusal_notAssignable _)).mono ?_
  rw [false_iff]
  intro hidle
  rw [hidle.isLookups] at ha
  cases ha

/-- lookups are refused at anything but a record: a list of records cannot be emptied, and other fields take none -/
theorem refused_of_not_isRecord {a : Answer} {x : Value} (hrec : (S.descriptor x.ty).isRecord = false) {e : Fault}
    (he : e.cause.IsRefusal) (w : Wrapper) :
    Refused (Idle S tag a x) (Outcome.fault e w).value.1 (Outcome.fault e w).log := by
  refine (Refused.of_error he).mono ?_
  rw [false_iff]
  intro hidle
  rw [hidle.isRecord] at hrec
  cases hrec

theorem refused_nested {l : Lookup} (hl : l.RefusedAtFields S tag) {f : Field} {x : Value} (hx : WellTyped S x)
    (hf : f.wrapper = .readOnly S x) :
    Refused (Idle S tag (nested l) x) ((nested l).feed S tag f).value.1 ((nested l).feed S tag f).log := by
  rw [feed, hf]
  have hdescriptor : (Wrapper.readOnly S x).descriptor = S.descriptor x.ty := rfl
  cases hrec : (S.descriptor x.ty).isRecord with
  | true =>
    obtain ⟨name, hname⟩ := (S.isRecord_iff x.ty).1 hrec
    have hvisit := refused_visit hl hx hname (a := nested l) rfl
    rw [hdescriptor, hrec]
    simpa [Filled.outcome] using hvisit
  | false =>
    rw [hdescriptor, hrec, if_neg (by simp)]
    split
    · rw [Wrapper.reset_readOnly]
      exact refused_of_not_isRecord hrec (Fault.isRefusal_notAssignable _) _
    · exact refused_of_not_isRecord hrec (Fault.isRefusal_shapeMismatch _ _ _) _

theorem refused_several {ls : List Lookup} (hls : ∀ l ∈ ls, l.RefusedAtFields S tag) {f : Field} {x : Value}
    (hx : WellTyped S x) (hf : f.wrapper = .readOnly S x) :
    Refused (Idle S tag (several ls) x) ((several ls).feed S tag f).value.1 ((several ls).feed S tag f).log := by
  rw [feed, hf]
  have hdescriptor : (Wrapper.readOnly S x).descriptor = S.descriptor x.ty := rfl
  by_cases hholds : (Wrapper.readOnly S x).holdsRecords = true
  · rw [if_pos hholds, Wrapper.reset_readOnly]
    exact refused_of_not_isRecord (not_isRecord_of_holdsRecords hholds) (Fault.isRefusal_notAssignable _) _
  rw [if_neg hholds, hdescriptor]
  cases hrec : (S.descriptor x.ty).isRecord with
  | false => exact refused_of_not_isRecord hrec (Fault.isRefusal_shapeMismatch _ _ _) _
  | true =>
    obtain ⟨name, hname⟩ := (S.isRecord_iff x.ty).1 hrec
    rw [if_pos rfl, feedLast_eq]
    cases hlast : ls.getLast? with
    | none =>
      obtain rfl := List.getLast?_eq_none_iff.1 hlast
      refine ⟨iff_of_true rfl (.empty hname), ?_, by simp [Outcome.ok]⟩
      intro e he
      cases he
    | some l =>
      have hvisit := refused_visit (hls l (List.mem_of_getLast? hlast)) hx hname (a := several ls) hlast
      simpa [Filled.outcome] using hvisit

/-- **A field that is only read takes an answer iff the answer is idle there.** Else it is refused, for want of a
location to write to or of a record to fill. Nothing is allocated either way. -/
theorem refused_feed (S : Schema) (tag : Option String) (a : Answer) :
    ∀ (f : Field) x, WellTyped S x → f.wrapper = .readOnly S x →
      Refused (Idle S tag a x) (a.feed S tag f).value.1 (a.feed S tag f).log := by
  induction a using nestedInduction with
  | nothing =>
    intro f x _ hf
    rw [feed]
    exact refused_assign rfl .unit hf
  | value y =>
    intro f x _ hf
    rw [feed]
    exact refused_assign rfl y hf
  | nested l ih =>
    intro f x hx hf
    exact refused_nested ih hx hf
  | several ls ih =>
    intro f x hx hf
    exact refused_several ih hx hf

end Answer

end

/-- **A wrapper that only reads refuses to write, but not every fill.** On every location that must not be written:
resetting, assignment, appending and every path end in a fault, leave the wrapper as it was and allocate nothing. The
fields of a record that is only read are only read. A fill leaves the wrapper as it was and allocates nothing either,
but it fails only if it comes to a field that has something to write: it succeeds iff the lookup is idle, as every
lookup is at a record behind a nil pointer. -/
theorem Wrapper.readOnly_refuses {S : Schema} {v : Value} (hv : WellTyped S v) :
    let w := readOnly S v
    let refusal := Fault.notAssignable w.declaredName
    (∀ src, w.assign S src = .fault refusal w) ∧
    w.reset S = .fault refusal w ∧
    (∀ items, w.append S items =
      .fault (if w.descriptor.isSlice then refusal else .unsupported "append" w.declaredName) w) ∧
    (∀ path, w.fieldAt S path = pure (.error (if path = [] then .invalidPath "empty index path" else refusal), w)) ∧
    (∀ tag, (w.fieldsFor S tag).log = [] ∧ (w.fieldsFor S tag).value.2 = w ∧
      ∀ f ∈ (w.fieldsFor S tag).value.1, ∃ x, WellTyped S x ∧ x.ty = f.decl.ty ∧ f.wrapper = readOnly S x) ∧
    (∀ tag l, (w.fill S tag l).value.wrapper = w ∧ (∀ t, .allocated t ∉ (w.fill S tag l).log) ∧
      if w.descriptor.isRecord then
        ((w.fill S tag l).value.result = .ok () ↔ Idle S tag (.nested l) v) ∧
          ∀ e, (w.fill S tag l).value.result = .error e → e.cause.IsRefusal
      else (w.fill S tag l).value.result =
        .error (.unsupported (if tag.isSome then "fill_by_tag" else "fill") w.declaredName)) := by
  intro w refusal
  have ht := target?_readOnly S v
  refine ⟨assign_readOnly, reset_readOnly, append_readOnly, fieldAt_readOnly, ?_, ?_⟩
  · intro tag
    refine ⟨log_fieldsFor_of_no_target ht tag, fieldsFor_of_no_target ht tag, fun f hf => ?_⟩
    obtain ⟨-, hx⟩ := field_readOnly hv hf
    exact hx
  · intro tag l
    refine ⟨visit_of_no_target ht tag _, ?_⟩
    cases hrec : w.descriptor.isRecord with
    | false =>
      have hfill : w.fill S tag l =
          pure ⟨[], .error (.unsupported (if tag.isSome then "fill_by_tag" else "fill") w.declaredName), w⟩ := by
        have hbound : w.isUnbound = false := rfl
        simp [fill, visit, hbound, hrec]
      rw [hfill]
      exact ⟨by simp, rfl⟩
    | true =>
      obtain ⟨name, hname⟩ := (S.isRecord_iff v.ty).1 hrec
      have hfill := refused_visit (fun key f x => Answer.refused_feed S tag (l key) f x) hv hname (a := .nested l) rfl
      exact ⟨hfill.no_allocation, hfill.ok_iff, hfill.cause⟩

/-- an account without an owner: a fill of the owner succeeds and does nothing, and so does the owner's part in a fill
of the account, which is refused at the guests -/
theorem Wrapper.readOnly_refuses_newAccount :
    let owner := Value.nil (.box (.record "Owner"))
    let named := Lookup.ofEntries [("NAME", .value (.literal "Ada"))]
    let l := Lookup.ofEntries [("OWNER", .nested named), ("GUESTS", .several [])]
    let w := readOnly Sample.accounts owner
    let all := readOnly Sample.accounts Sample.newAccount
    let guests := (Ty.slice (.record "Owner")).fullName
    (w.fill Sample.accounts (some "env") named).value.result = .ok () ∧
      (w.fill Sample.accounts (some "env") named).value.wrapper = w ∧
      (all.fill Sample.accounts (some "env") l).value.result = .error (.inField "guests" (.notAssignable guests)) ∧
      ¬Idle Sample.accounts (some "env") (.nested l) Sample.newAccount := by
  intro owner named l w all guests
  have hguests : (all.fill Sample.accounts (some "env") l).value.result =
      .error (.inField "guests" (.notAssignable guests)) := rfl
  have howner : WellTyped Sample.accounts owner := .nil _
  obtain ⟨-, -, -, -, -, hfill⟩ := readOnly_refuses howner
  obtain ⟨-, -, -, -, -, hfillAll⟩ := readOnly_refuses Sample.wellTyped_newAccount
  obtain ⟨hsame, -, hok, -⟩ := hfill (some "env") named
  obtain ⟨-, -, hokAll, -⟩ := hfillAll (some "env") l
  refine ⟨hok.2 (.absent rfl rfl rfl), hsame, hguests, fun hidle => ?_⟩
  have hresult := hokAll.2 hidle
  rw [hguests] at hresult
  cases hresult

end DynAssign
