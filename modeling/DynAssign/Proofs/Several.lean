/-
A list of records that takes lookups.

Each lookup fills a fresh element of its own, from the zero value of the element type, and the elements are put into the
emptied list one after another. A lookup that fails ends this, and the elements in front of it stay.
`Wrapper.filledFrom` is the step for one lookup, and `Wrapper.FillsList` says how it goes for several: all of them fill
their elements, or there is a first one that does not.

- `Answer.fillsList_effectEach`: several lookups go like this, by induction on the lookups.
- `Answer.effect_several_singleton`: a single lookup does what several do that are only one, but the fault does not say
  which.
- `Answer.ne_shapeMismatch_of_records`: every answer is of a shape that a list of records takes.
- `Wrapper.fill_several`: the main statement, for a field that a fill comes to.
-/
import DynAssign.Proofs.Faults
import DynAssign.Proofs.Untouched

namespace DynAssign

namespace Wrapper

/-- a fresh zero element filled from a lookup on its own: the outcome, and what the element stores then -/
def filledFrom (S : Schema) (tag : Option String) (e : Ty) (l : Lookup) : Except Fault Unit × Option Value :=
  let after := ((own S (.zero S e)).value.fill S tag l).value
  (after.result, after.wrapper.ownStorage?)

/-- each lookup fills a fresh element, and these are what the elements store -/
def FilledElements (S : Schema) (tag : Option String) (e : Ty) (ls : List Lookup) (ys : List Value) : Prop :=
  List.Forall₂ (fun l y => filledFrom S tag e l = (.ok (), some y)) ls ys

/-- The outcome and the elements of a list that takes these lookups: one element each if all of them fill theirs, or
those in front of the first that fails. -/
structure FillsList (S : Schema) (tag : Option String) (e : Ty) (ls : List Lookup) (r : Except Fault Unit)
    (ys : List Value) : Prop where
  all : (∀ l ∈ ls, (filledFrom S tag e l).1 = .ok ()) → r = .ok () ∧ FilledElements S tag e ls ys
  upTo : ∀ k l fault, ls[k]? = some l → (filledFrom S tag e l).1 = .error fault →
    (∀ l' ∈ ls.take k, (filledFrom S tag e l').1 = .ok ()) →
    r = .error (.inElement k fault) ∧ FilledElements S tag e (ls.take k) ys

section

variable {S : Schema} {tag : Option String} {e : Ty} {inner : String}

/-- a fresh element filled from a lookup is what the rule of the lookup leaves of a zero record -/
theorem filledFrom_eq (tag : Option String) (he : e.resolved = .record inner) (l : Lookup) :
    filledFrom S tag e l =
      ((recordRule S tag (l.rule S tag) (.zero S e.resolved)).1,
        some (.layered e (recordRule S tag (l.rule S tag) (.zero S e.resolved)).2)) := by
  have hown := Holds.own S (.zero S e)
  rw [Value.allocate_zero] at hown
  have hfill := hown.value_fill (by rw [Value.ty_fresh, he]) tag l
  rw [Value.chainEnd_fresh] at hfill
  rw [filledFrom, hfill]
  exact Prod.ext rfl (ownStorage?_element S e _)

/-- the element that is built for a list is what the fresh element stores, unless the fill failed -/
theorem builtElement_eq (tag : Option String) (he : e.resolved = .record inner) (l : Lookup) :
    builtElement S tag (l.rule S tag) e =
      (filledFrom S tag e l).1.map fun _ => .layered e (recordRule S tag (l.rule S tag) (.zero S e.resolved)).2 := by
  rw [filledFrom_eq tag he]
  rfl

theorem filledFrom_eq_ok_iff (he : e.resolved = .record inner) {l : Lookup} {y : Value} :
    filledFrom S tag e l = (.ok (), some y) ↔ builtElement S tag (l.rule S tag) e = .ok y := by
  rw [builtElement_eq tag he, filledFrom_eq tag he]
  cases (recordRule S tag (l.rule S tag) (.zero S e.resolved)).1 <;> simp [Except.map]

theorem filledFrom_eq_error_iff (he : e.resolved = .record inner) {l : Lookup} {fault : Fault} :
    (filledFrom S tag e l).1 = .error fault ↔ builtElement S tag (l.rule S tag) e = .error fault := by
  rw [builtElement_eq tag he]
  cases (filledFrom S tag e l).1 <;> simp [Except.map]

theorem filledFrom_ok_iff (he : e.resolved = .record inner) {l : Lookup} :
    (filledFrom S tag e l).1 = .ok () ↔ ∃ y, builtElement S tag (l.rule S tag) e = .ok y := by
  rw [builtElement_eq tag he]
  cases (filledFrom S tag e l).1 <;> simp [Except.map]

end

end Wrapper

namespace Answer

variable {S : Schema} {tag : Option String} {e : Ty} {inner : String}

/-! ## Several lookups -/

theorem effectEach_of_ok {l : Lookup} {y : Value} (hy : builtElement S tag (l.rule S tag) e = .ok y)
    (ls : List Lookup) (i : Nat) :
    effectEach S tag (l :: ls) i e = ((effectEach S tag ls (i + 1) e).1, y :: (effectEach S tag ls (i + 1) e).2) := by
  rw [effectEach_cons, hy]

theorem effectEach_of_error {l : Lookup} {fault : Fault} (h : builtElement S tag (l.rule S tag) e = .error fault)
    (ls : List Lookup) (i : Nat) : effectEach S tag (l :: ls) i e = (.error (.inElement i fault), []) := by
  rw [effectEach_cons, h]

theorem effectEach_all (he : e.resolved = .record inner) {ls : List Lookup}
    (h : ∀ l ∈ ls, (Wrapper.filledFrom S tag e l).1 = .ok ()) (i : Nat) :
    (effectEach S tag ls i e).1 = .ok () ∧ Wrapper.FilledElements S tag e ls (effectEach S tag ls i e).2 := by
  induction ls generalizing i with
  | nil => exact ⟨rfl, .nil⟩
  | cons l ls ih =>
    rw [List.forall_mem_cons] at h
    obtain ⟨y, hy⟩ := (Wrapper.filledFrom_ok_iff he).1 h.1
    obtain ⟨hok, hys⟩ := ih h.2 (i + 1)
    rw [effectEach_of_ok hy]
    exact ⟨hok, .cons ((Wrapper.filledFrom_eq_ok_iff he).2 hy) hys⟩

theorem effectEach_upTo (he : e.resolved = .record inner) {ls : List Lookup} {k : Nat} {l : Lookup} {fault : Fault}
    (hl : ls[k]? = some l) (hfault : (Wrapper.filledFrom S tag e l).1 = .error fault)
    (hbefore : ∀ l' ∈ ls.take k, (Wrapper.filledFrom S tag e l').1 = .ok ()) (i : Nat) :
    (effectEach S tag ls i e).1 = .error (.inElement (i + k) fault) ∧
      Wrapper.FilledElements S tag e (ls.take k) (effectEach S tag ls i e).2 := by
  induction ls generalizing k i with
  | nil => cases hl
  | cons l₀ ls ih =>
    cases k with
    | zero =>
      obtain rfl : l₀ = l := by simpa using hl
      rw [effectEach_of_error ((Wrapper.filledFrom_eq_error_iff he).1 hfault)]
      exact ⟨rfl, .nil⟩
    | succ k =>
      rw [List.take_succ_cons, List.forall_mem_cons] at hbefore
      obtain ⟨y, hy⟩ := (Wrapper.filledFrom_ok_iff he).1 hbefore.1
      obtain ⟨herror, hys⟩ := ih (by simpa using hl) hbefore.2 (i + 1)
      rw [effectEach_of_ok hy, show i + (k + 1) = i + 1 + k by omega]
      exact ⟨herror, .cons ((Wrapper.filledFrom_eq_ok_iff he).2 hy) hys⟩

/-- **Several lookups fill one element each, up to the first that fails.** -/
theorem fillsList_effectEach (S : Schema) (tag : Option String) (he : e.resolved = .record inner) (ls : List Lookup) :
    Wrapper.FillsList S tag e ls (effectEach S tag ls 0 e).1 (effectEach S tag ls 0 e).2 where
  all h := effectEach_all he h 0
  upTo k l fault hl hfault hbefore := by
    have hstopped := effectEach_upTo he hl hfault hbefore 0
    rwa [Nat.zero_add] at hstopped

/-! ## All answers -/

section

variable {v : Value}

/-- on a list of records, several lookups that are one do what the single one does, with the place in the fault -/
theorem effect_several_singleton (hv : v.ty = .slice e) (hrec : (S.descriptor e).isRecord = true) (tag : Option String)
    (l : Lookup) (key name : String) :
    (several [l]).effect S tag key name v =
      (((nested l).effect S tag key name v).1.mapError (.inElement 0), ((nested l).effect S tag key name v).2) := by
  rw [effect_several, effect_nested, shaped_of_records hv hrec, shaped_of_records hv hrec]
  cases hy : builtElement S tag (l.rule S tag) e with
  | ok y => rw [effectEach_of_ok hy]; rfl
  | error fault => rw [effectEach_of_error hy]; rfl

theorem exists_of_effectEach_error {ls : List Lookup} {i : Nat} {fault : Fault}
    (h : (effectEach S tag ls i e).1 = .error fault) : ∃ k source, fault = .inElement k source := by
  induction ls generalizing i with
  | nil => cases h
  | cons l ls ih =>
    cases hy : builtElement S tag (l.rule S tag) e with
    | ok y =>
      rw [effectEach_of_ok hy] at h
      exact ih h
    | error source =>
      rw [effectEach_of_error hy] at h
      cases h
      exact ⟨i, source, rfl⟩

/-- a list of records does not fail for the shape of an answer -/
theorem ne_shapeMismatch_of_records (hv : v.ty = .slice e) (hrec : (S.descriptor e).isRecord = true)
    (tag : Option String) (a : Answer) (key name key' name' got : String) :
    (a.effect S tag key name v).1 ≠ .error (.shapeMismatch key' name' got) := by
  intro h
  cases a with
  | nothing => exact nomatch Wrapper.ofConversion_of_assigned h
  | value x => exact nomatch Wrapper.ofConversion_of_assigned h
  | nested l =>
    rw [effect_nested, shaped_of_records hv hrec] at h
    have hbuilt := onlyElement_eq_error.1 h
    obtain ⟨field, source, hfault, -⟩ := ofRecord_of_builtElement (Lookup.ofAnswer_of_rule S tag l) hbuilt
    cases hfault
  | several ls =>
    rw [effect_several, shaped_of_records hv hrec] at h
    obtain ⟨k, source, hfault⟩ := exists_of_effectEach_error h
    cases hfault

end

end Answer

/-! ## Fills -/

/-- the fault of a run names a field that the run comes to iff the field fails to take its answer -/
theorem Turns.failed_iff_of_arrives {S : Schema} {tag : Option String} {l : Lookup} {name key : String}
    {vs : List Value} {n p : Nat} {after : Walked} {d : FieldDecl} {x : Value}
    (h : Turns tag (fun d key => (l key).alone S tag d key) (fun d => d.passed S) (S.fields name) vs n after)
    (harrives : Arrives S tag l name vs p) (hd : (S.fields name)[p]? = some d) (hkey : d.key? tag = some key)
    (hx : vs[p]? = some x) (fault : Fault) :
    after.result = .error (.inField d.name fault) ↔
      (l.rule S tag key d.name (x.allocate S).value).1 = .error fault := by
  have halone : ((l key).alone S tag d key x).1 = (l.rule S tag key d.name (x.allocate S).value).1 := by
    rw [Answer.alone_eq l hkey, FieldDecl.passed, if_pos (Wrapper.visible_of_key? hkey)]
  rw [← halone]
  constructor
  · intro hr
    exact h.failed_of_error (S.names_nodup name) hr hd hkey hx
  · intro hfault
    rcases Nat.lt_or_eq_of_le (h.le_of_arrives harrives hd) with hlt | rfl
    · rw [h.finished p d key x hd hkey hx hlt] at hfault
      cases hfault
    · obtain ⟨err, hturn, hr⟩ := h.ending_at hd hkey hx
      rw [hturn] at hfault
      cases hfault
      exact hr

/-- a run comes to a field if the fields in front of it are answered nothing -/
theorem arrives_of_nothing {S : Schema} {tag : Option String} {l : Lookup} {name : String} {p : Nat}
    (h : ∀ q d key, q < p → (S.fields name)[q]? = some d → d.key? tag = some key → l key = .nothing)
    (vs : List Value) : Arrives S tag l name vs p := by
  intro q d key v hq hd hkey hv
  have hvoid : S.isVoid Value.unit.concrete.ty = true := rfl
  rw [Answer.alone_eq l hkey, Lookup.rule, atEnd, h q d key hq hd hkey, Answer.effect, Wrapper.assigned,
    Value.convert_of_isVoid hvoid]
  rfl

/-- **Lookups replace the elements of a list of records, up to the first that fails.** A fill by names or by an
annotation comes to a field that is a list of records, pointers aside, whatever it holds. For several lookups, the list
ends with one element for each, a fresh element filled from it in the same way. If one of them fails, the first such
gives the fault of the field, at its place, and the list has the elements in front of it. A single lookup is treated as
several that are only one, and the fault has no place. No element of before is left, and the field never fails for the
shape of its answer. -/
theorem Wrapper.fill_several {S : Schema} {w : Wrapper} (hw : Built S w) {name : String} {vs : List Value}
    (hc : w.contents? = some (.record name vs)) {tag : Option String} {p : Nat} {d : FieldDecl} {key : String}
    (hd : (S.fields name)[p]? = some d) (hkey : d.key? tag = some key) {e : Ty} (he : d.ty.resolved = .slice e)
    {inner : String} (hinner : e.resolved = .record inner) {l : Lookup} (harrives : Arrives S tag l name vs p) :
    let after := (w.fill S tag l).value
    ∃ r ws x ys, after.wrapper.contents? = some (.record name ws) ∧ ws[p]? = some x ∧ x.chainEnd = .list e ys ∧
      (∀ fault, after.result = .error (.inField d.name fault) ↔ r = .error fault) ∧
      (∀ ls, l key = .several ls → FillsList S tag e ls r ys) ∧
      (∀ g, l key = .nested g → FillsList S tag e [g] (r.mapError (.inElement 0)) ys) ∧
      ∀ key' name' got, r ≠ .error (.shapeMismatch key' name' got) := by
  intro after
  obtain ⟨st, hst, h⟩ := hw.holds
  have hend : st.chainEnd = .record name vs := Option.some.inj (h.contents.symm.trans hc)
  have hrecord := Value.wellTyped_chainEnd hst
  rw [hend] at hrecord
  obtain ⟨v, hv⟩ := hrecord.exists_field hd
  obtain ⟨n, ws, hcontents, hturns⟩ := h.filledInOrder hst hend tag l
  have hrec : (S.descriptor e).isRecord = true := (S.isRecord_iff e).2 ⟨inner, hinner⟩
  -- the contents of the field before, its pointers allocated, and what its answer makes of them
  have hold : (v.allocate S).value.chainEnd.ty = .slice e := by
    rw [Value.ty_chainEnd_allocate, hrecord.ty_field hd hv, he]
  generalize hbefore : (v.allocate S).value.chainEnd = old at hold
  have hnew := Answer.ty_effect S tag (l key) key d.name old
  obtain ⟨ys, hys⟩ := Value.eq_list_of_ty (hnew.trans hold)
  refine ⟨((l key).effect S tag key d.name old).1, ws, _, ys, hcontents,
    hturns.of_arrives harrives hd hkey hv, ?_, ?_, ?_, ?_, ?_⟩
  · rw [Lookup.rule, atEnd, Value.chainEnd_setChainEnd, hbefore, hys]
    rw [hbefore, hys]
    rfl
  · intro fault
    rw [hturns.failed_iff_of_arrives harrives hd hkey hv, Lookup.rule, atEnd, hbefore]
  · intro ls hls
    rw [hls, Answer.effect_several, shaped_of_records hold hrec] at hys ⊢
    cases hys
    exact Answer.fillsList_effectEach S tag hinner ls
  · intro g hg
    have hsingle := Answer.effect_several_singleton hold hrec tag g key d.name
    have hfills := Answer.fillsList_effectEach S tag hinner [g]
    rw [Answer.effect_several, shaped_of_records hold hrec, Prod.mk.injEq] at hsingle
    rw [hg] at hys ⊢
    rw [hys, Value.list.injEq] at hsingle
    rwa [hsingle.1, hsingle.2.2] at hfills
  · exact Answer.ne_shapeMismatch_of_records hold hrec tag (l key) key d.name

/-- children behind pointers: of three lookups the second has a lookup for a text, so the old child gives way to the one
that the first lookup fills, which has children of its own; the second lookup alone leaves no child -/
theorem Wrapper.fill_several_node :
    let child : Ty := .option (.record "Node")
    let good := Lookup.ofEntries [("label", .value (.literal "a")), ("children", .several [Lookup.empty, Lookup.empty])]
    let bad := Lookup.ofEntries [("label", .nested Lookup.empty)]
    let w := (locate Sample.schema (Sample.nodeOf "old" 1 [] [Sample.nodeOf "gone" 2 [] [] true] true)).value
    let after (a : Answer) := (w.fill Sample.schema none (Lookup.ofEntries [("children", a)])).value
    let fault := Fault.inField "label" (.shapeMismatch "label" "label" "a getter")
    (after (.several [good, bad, good])).result = .error (.inField "children" (.inElement 1 fault)) ∧
      (∃ ws x y, (after (.several [good, bad, good])).wrapper.contents? = some (.record "Node" ws) ∧ ws[3]? = some x ∧
        x.chainEnd = .list child [y] ∧ filledFrom Sample.schema none child good = (.ok (), some y)) ∧
      (after (.nested bad)).result = .error (.inField "children" fault) ∧
      ∃ ws x, (after (.nested bad)).wrapper.contents? = some (.record "Node" ws) ∧ ws[3]? = some x ∧
        x.chainEnd = .list child [] := by
  intro child good bad w after fault
  have hw : Built Sample.schema w := .locate (Sample.wellTyped_nodeOf "old" 1 [] true (by simp [Sample.nodeOf, Value.ty])
    (by simpa using Sample.wellTyped_nodeOf "gone" 2 [] true (by simp) (by simp)))
  have hd : (Sample.schema.fields "Node")[3]? = some ⟨"children", .slice child, [("xml", "c")], true⟩ := rfl
  have hkey : FieldDecl.key? none ⟨"children", .slice child, [("xml", "c")], true⟩ = some "children" := rfl
  have harrives (a : Answer) (vs : List Value) :
      Arrives Sample.schema none (Lookup.ofEntries [("children", a)]) "Node" vs 3 := by
    refine arrives_of_nothing (fun q d key hq hd hkey => ?_) vs
    have hcases : q = 0 ∨ q = 1 ∨ q = 2 := by omega
    rcases hcases with rfl | rfl | rfl
    all_goals
      obtain rfl := Option.some.inj hd
      obtain rfl := Option.some.inj hkey
      rfl
  have hgood : (filledFrom Sample.schema none child good).1 = .ok () := by cbv
  have hbad : (filledFrom Sample.schema none child bad).1 = .error fault := by cbv
  obtain ⟨r, ws, x, ys, hcontents, hx, hlist, hfault, hseveral, -, -⟩ :=
    fill_several hw rfl hd hkey rfl rfl (harrives (.several [good, bad, good]) _)
  obtain ⟨hr, hys⟩ := (hseveral _ rfl).upTo 1 bad fault rfl hbad (List.forall_mem_singleton.2 hgood)
  obtain ⟨y, hy, rfl⟩ : ∃ y, filledFrom Sample.schema none child good = (.ok (), some y) ∧ [y] = ys := by
    cases hys with
    | cons hy hnil =>
      cases hnil
      exact ⟨_, hy, rfl⟩
  obtain ⟨r', ws', x', ys', hcontents', hx', hlist', hfault', -, hnested, -⟩ :=
    fill_several hw rfl hd hkey rfl rfl (harrives (.nested bad) _)
  obtain ⟨hr', hys'⟩ := (hnested _ rfl).upTo 0 bad fault rfl hbad (by simp)
  have hr'' : r' = .error fault := by
    cases r' with
    | ok u => cases hr'
    | error err =>
      cases hr'
      rfl
  cases hys'
  exact ⟨(hfault _).2 hr, ⟨ws, x, y, hcontents, hx, hlist, hy⟩, (hfault' _).2 hr'', ws', x', hcontents', hx', hlist'⟩

end DynAssign
