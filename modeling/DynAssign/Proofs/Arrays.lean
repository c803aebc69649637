/-
An array of a document, assigned to a list of records.

An array of objects comes as several lookups, and each object fills an element of its own. Every other array comes as a
value, and in a value an object is nil. So an array that mixes objects with other things does not fill anything: it
either fails, or leaves one fresh element per item, whatever the objects have to say.

`Document.isBlank` tells the two apart: an item is blank if what it stores converts to a zero record, and an array is
what its last item is (`Value.toOption_convert_stored`). `Document.get?` is the entry of a key, the last one of that key
(`Document.lookup_eq`).

Main statement, for a fill of any writable wrapper on a record: `Wrapper.fill_array`.
-/
import DynAssign.Proofs.Order
import DynAssign.Proofs.RoundTrip
import DynAssign.Proofs.Several

namespace DynAssign

namespace Document

mutual

/-- what is stored of the document says nothing about a record -/
def isBlank : Document → Bool
  | null | object _ => true
  | array items => lastIsBlank items
  | _ => false

def lastIsBlank : List Document → Bool
  | [] => true
  | [d] => d.isBlank
  | _ :: d :: ds => lastIsBlank (d :: ds)

end

theorem lastIsBlank_eq (ds : List Document) : lastIsBlank ds = (ds.getLast?.map isBlank).getD true := by
  induction ds with
  | nil => rfl
  | cons d ds ih => cases ds with
    | nil => rfl
    | cons d' ds =>
      rw [lastIsBlank, ih, List.getLast?_cons_cons]

theorem storedAll_eq_map (ds : List Document) : storedAll ds = ds.map fun d => .any d.stored := by
  induction ds with
  | nil => rfl
  | cons d ds ih => rw [storedAll, ih, List.map_cons]

theorem lookups_of_all {ds : List Document} (h : ds.all isObject = true) : lookups ds = ds.map lookup := by
  induction ds with
  | nil => rfl
  | cons d ds ih =>
    rw [List.all_cons, Bool.and_eq_true] at h
    cases d with
    | object entries => rw [lookups, ih h.2, List.map_cons, lookup]
    | _ => cases h.1

/-- the entry of a key in an object, the last one of that key -/
def get? (d : Document) (key : String) : Option Document :=
  match d with
  | object entries => entries.reverse.lookup key
  | _ => none

theorem entry_eq (entries : List (String × Document)) (key : String) :
    entry entries key = ((entries.reverse.lookup key).map answer).getD .nothing := by
  induction entries with
  | nil => rfl
  | cons p entries ih =>
    obtain ⟨k, d⟩ := p
    rw [entry, ih, List.reverse_cons, List.lookup_append]
    cases hlater : entries.reverse.lookup key with
    | some d' =>
      -- an entry behind this one has the key too
      have hany : entries.any (·.1 = key) = true := by
        obtain ⟨l₁, l₂, hsplit, -⟩ := List.lookup_eq_some_iff.1 hlater
        rw [List.any_eq_true]
        exact ⟨(key, d'), by rw [← List.mem_reverse, hsplit]; simp, by simp⟩
      simp [hany]
    | none =>
      have hany : entries.any (·.1 = key) = false := by
        rw [List.any_eq_false]
        intro p hp
        have hne : key ≠ p.1 := by simpa using List.lookup_eq_none_iff.1 hlater p (List.mem_reverse.2 hp)
        simpa using hne.symm
      by_cases hk : k = key
      · simp [hk, hany, List.lookup]
      · have hk' : (key == k) = false := beq_eq_false_iff_ne.2 (Ne.symm hk)
        simp [hk, hk', List.lookup]

theorem lookup_eq (d : Document) (key : String) : d.lookup key = ((d.get? key).map answer).getD .nothing := by
  cases d with
  | object entries => exact entry_eq entries key
  | _ => rfl

end Document

namespace Value

variable {S : Schema} {inner : String}

/-- What is stored of a document converts into a record iff the document is blank, and then into a zero record. By
recursion on the last items of arrays. -/
theorem toOption_convert_stored (d : Document) : ∀ {src : Value}, src.concrete = d.stored →
    (convert S src (.record inner)).run.value.toOption = if d.isBlank then some (zero S (.record inner)) else none := by
  intro src hsrc
  match d with
  | .null | .object entries =>
    rw [convert_of_isVoid (by rw [hsrc]; rfl)]
    rfl
  | .array items =>
    rw [convert_single (by rw [hsrc]; rfl) (by simp) (by simp), hsrc, Document.stored, Document.storedAll_eq_map]
    simp only [ty, reduceCtorEq, if_false, content?, items?, List.getLast?_map, Document.isBlank,
      Document.lastIsBlank_eq]
    cases hlast : items.getLast? with
    | none => rfl
    | some d =>
      have hlt : sizeOf d < sizeOf items := List.sizeOf_lt_of_mem (List.mem_of_getLast? hlast)
      simp only [Option.map_some, Option.getD_some]
      exact toOption_convert_stored d (by rw [concrete, concrete_stored])
  | .bool b | .number n | .string s =>
    rw [convert_single (by rw [hsrc]; rfl) (by simp) (by simp), hsrc, Document.stored]
    rfl
termination_by sizeOf d
decreasing_by
  simp
  omega

theorem toOption_convertAll_cons (src : Value) (rest : List Value) (i : Nat) (e : Ty) :
    (convertAll S (src :: rest) i e).run.value.toOption =
      (convert S src e.resolved).run.value.toOption.bind fun v =>
        (convertAll S rest (i + 1) e).run.value.toOption.map (layered e v :: ·) := by
  rw [convertAll, ExceptT.run_bind, Traced.value_bind, Attempt.value_report]
  dsimp only
  rw [ExceptT.run_bind, Traced.value_bind, Attempt.value_inContext]
  cases (convert S src e.resolved).run.value with
  | error err => rfl
  | ok v =>
    simp only [Except.mapError, ExceptT.run_bind, Traced.value_bind]
    cases (convertAll S rest (i + 1) e).run.value <;> rfl

/-- the items of an array convert into records iff all of them are blank, and then into fresh elements -/
theorem toOption_convertAll_stored {e : Ty} (he : e.resolved = .record inner) (items : List Document) (i : Nat) :
    (convertAll S (Document.storedAll items) i e).run.value.toOption =
      if items.all Document.isBlank then some (items.map fun _ => fresh S e) else none := by
  induction items generalizing i with
  | nil => rw [Document.storedAll, convertAll]; rfl
  | cons d items ih =>
    have hfirst : (convert S (.any d.stored) (.record inner)).run.value.toOption =
        if d.isBlank then some (zero S (.record inner)) else none :=
      toOption_convert_stored d (by rw [concrete, concrete_stored])
    rw [Document.storedAll, toOption_convertAll_cons, he, hfirst, ih]
    by_cases hd : d.isBlank <;> by_cases hitems : items.all Document.isBlank <;> simp [hd, hitems, fresh, he]

end Value

/-! ## Elements -/

/-- a fresh element filled from a document on its own: the outcome, and what the element stores then -/
def Wrapper.filledElement (S : Schema) (tag : Option String) (e : Ty) (d : Document) :
    Except Fault Unit × Option Value :=
  let after := ((own S (.zero S e)).value.fill S tag d.lookup).value
  (after.result, after.wrapper.ownStorage?)

section

variable {S : Schema} {tag : Option String} {e : Ty} {inner : String}

theorem Wrapper.filledElement_of_builtElement (he : e.resolved = .record inner) {d : Document} {y : Value}
    (h : builtElement S tag (d.lookup.rule S tag) e = .ok y) : filledElement S tag e d = (.ok (), some y) :=
  (filledFrom_eq_ok_iff he).2 h

namespace Answer

theorem forall₂_of_effectEach {ls : List Lookup} {i : Nat} (h : (effectEach S tag ls i e).1 = .ok ()) :
    List.Forall₂ (fun l y => builtElement S tag (l.rule S tag) e = .ok y) ls (effectEach S tag ls i e).2 := by
  induction ls generalizing i with
  | nil => exact .nil
  | cons l ls ih =>
    rw [effectEach_cons] at h ⊢
    cases hy : builtElement S tag (l.rule S tag) e with
    | error err =>
      rw [hy] at h
      cases h
    | ok y =>
      rw [hy] at h
      exact .cons hy (ih h)

end Answer

/-- The elements that an array leaves in a list of records: of objects, those that they fill one by one; of objects
mixed with other things, all of them blank, a fresh one for each item. -/
def Document.Leaves (S : Schema) (tag : Option String) (e : Ty) (items : List Document) (ys : List Value) : Prop :=
  if items.all isObject then
    List.Forall₂ (fun item y => Wrapper.filledElement S tag e item = (.ok (), some y)) items ys
  else items.all isBlank = true ∧ ys = items.map fun _ => .fresh S e

theorem Document.Leaves.length_eq {items : List Document} {ys : List Value} (h : Leaves S tag e items ys) :
    ys.length = items.length := by
  unfold Leaves at h
  split at h
  · exact h.length_eq.symm
  · rw [h.2, List.length_map]

namespace Document

variable {items : List Document} {v : Value} {key name : String}

/-- an array of objects fills a list of records element by element -/
theorem effect_objects (he : e.resolved = .record inner) (hv : v.ty = .slice e) (hne : items ≠ [])
    (hall : items.all isObject = true) (hok : ((array items).answer.effect S tag key name v).1 = .ok ()) :
    ∃ ys, ((array items).answer.effect S tag key name v).2 = .list e ys ∧ Leaves S tag e items ys := by
  have hrec : (S.descriptor e).isRecord = true := (S.isRecord_iff e).2 ⟨inner, he⟩
  rw [answer, if_pos ⟨hne, hall⟩, Answer.effect_several, shaped_of_records hv hrec, lookups_of_all hall] at hok ⊢
  refine ⟨_, rfl, ?_⟩
  have hbuilt := List.forall₂_map_left_iff.1 (Answer.forall₂_of_effectEach hok)
  rw [Leaves, if_pos hall]
  exact hbuilt.imp fun item y hy => Wrapper.filledElement_of_builtElement he hy

variable (S tag key name) in
/-- an array of objects mixed with other things fails, or is all blank and leaves fresh elements -/
theorem effect_mixed (he : e.resolved = .record inner) (hv : v.ty = .slice e) (hmixed : items.all isObject = false) :
    if items.all isBlank then
      (array items).answer.effect S tag key name v = (.ok (), .list e (items.map fun _ => .fresh S e))
    else ∃ err, ((array items).answer.effect S tag key name v).1 = .error err := by
  have hvalue : ¬(items ≠ [] ∧ items.all isObject = true) := by simp [hmixed]
  have hitems := Value.toOption_convertAll_stored (S := S) he items 0
  rw [answer, if_neg hvalue, Answer.effect, hv, Wrapper.assigned,
    Value.convert_slice (by rw [Value.concrete_stored]; rfl), Value.concrete_stored, stored]
  simp only [Value.content?, Value.asItems, Value.items?, Option.getD_some, ExceptT.run_map, Traced.value_map]
  cases hys : (Value.convertAll S (storedAll items) 0 e).run.value with
  | error err =>
    have hblank : items.all isBlank ≠ true := by
      intro hblank
      rw [hys, if_pos hblank] at hitems
      cases hitems
    rw [if_neg hblank]
    exact ⟨err, rfl⟩
  | ok ys =>
    by_cases hblank : items.all isBlank = true
    · rw [hys, if_pos hblank] at hitems
      cases hitems
      rw [if_pos hblank]
      rfl
    · rw [hys, if_neg hblank] at hitems
      cases hitems

/-- an array with an object that a list of records takes leaves elements in it -/
theorem leaves_of_effect (he : e.resolved = .record inner) (hv : v.ty = .slice e) (hne : items ≠ [])
    (hok : ((array items).answer.effect S tag key name v).1 = .ok ()) :
    ∃ ys, ((array items).answer.effect S tag key name v).2 = .list e ys ∧ Leaves S tag e items ys := by
  by_cases hall : items.all isObject = true
  · exact effect_objects he hv hne hall hok
  · have hmixed := effect_mixed S tag key name he hv (by simpa using hall)
    by_cases hblank : items.all isBlank = true
    · rw [if_pos hblank] at hmixed
      rw [hmixed]
      refine ⟨_, rfl, ?_⟩
      rw [Leaves, if_neg hall]
      exact ⟨hblank, rfl⟩
    · rw [if_neg hblank] at hmixed
      obtain ⟨err, herr⟩ := hmixed
      rw [herr] at hok
      cases hok

end Document

end

/-! ## Fills -/

/-- **An array of objects fills a list of records; mixed with other things, the objects are lost.** A record has a field
that takes part in a fill and is a list of records, and the document has an array with an object for it. If the fill
succeeds, the list has one element per item. If all items are objects, each element is what a fresh element becomes
when it is filled from its object. If not, all items are blank and every element is fresh: of the objects nothing is
left. The fill does not fail at the field then, so nobody is told. -/
theorem Wrapper.fill_array {S : Schema} {w : Wrapper} (hw : Built S w) {name : String} {vs : List Value}
    (hc : w.contents? = some (.record name vs)) {tag : Option String} {p : Nat} {d : FieldDecl} {key : String}
    (hd : (S.fields name)[p]? = some d) (hk : d.key? tag = some key) {e : Ty} (he : d.ty.resolved = .slice e)
    {inner : String} (hinner : e.resolved = .record inner) {doc : Document} {items : List Document}
    (hitems : doc.get? key = some (.array items)) (hobject : ∃ item ∈ items, item.isObject = true) :
    let after := (w.fill S tag doc.lookup).value
    (after.result = .ok () →
      ∃ ws x ys, after.wrapper.contents? = some (.record name ws) ∧ ws[p]? = some x ∧ x.chainEnd = .list e ys ∧
        ys.length = items.length ∧ Document.Leaves S tag e items ys) ∧
    (items.all Document.isObject = false → items.all Document.isBlank = true →
      ∀ fault, after.result ≠ .error (.inField d.name fault)) := by
  intro after
  obtain ⟨st, hst, h⟩ := hw.holds
  have hend : st.chainEnd = .record name vs := Option.some.inj (h.contents.symm.trans hc)
  have hrecord := Value.wellTyped_chainEnd hst
  rw [hend] at hrecord
  obtain ⟨v, hv⟩ := hrecord.exists_field hd
  obtain ⟨n, ws, hcontents, hturns⟩ := h.filledInOrder hst hend tag doc.lookup
  -- the storage of the field, its pointers allocated, ends in the list
  have hpassed : d.passed S v = (v.allocate S).value := if_pos (Wrapper.visible_of_key? hk)
  have hlist : (v.allocate S).value.chainEnd.ty = .slice e := by
    rw [Value.ty_chainEnd_allocate, hrecord.ty_field hd hv, he]
  have hanswer : doc.lookup key = (Document.array items).answer := by
    rw [Document.lookup_eq, hitems, Option.map_some, Option.getD_some]
  have halone := Answer.alone_eq doc.lookup hk v (S := S)
  rw [hpassed, Lookup.rule, atEnd, hanswer] at halone
  refine ⟨fun hok => ?_, fun hmixed hblank fault hfault => ?_⟩
  · have hfinished := hturns.finished_of_ok hok hd hk hv
    rw [hanswer, halone, Prod.mk.injEq] at hfinished
    obtain ⟨heffect, hstored⟩ := hfinished
    have hne : items ≠ [] := by
      rintro rfl
      simp at hobject
    obtain ⟨ys, hys, hleaves⟩ := Document.leaves_of_effect hinner hlist hne heffect
    refine ⟨ws, _, ys, hcontents, hstored.symm, ?_, hleaves.length_eq, hleaves⟩
    rw [hys, Value.chainEnd_setChainEnd _ rfl]
  · have hfailed := hturns.failed_of_error (S.names_nodup name) hfault hd hk hv
    have heffect := Document.effect_mixed S tag key d.name hinner hlist hmixed
    rw [if_pos hblank] at heffect
    rw [hanswer, halone, heffect] at hfailed
    cases hfailed

/-- an object beside a null: the node gets two fresh children, and none with the label that the object gives alone -/
theorem Wrapper.fill_array_node :
    let child : Ty := .option (.record "Node")
    let object := Document.object [("label", .string "lost")]
    let doc := Document.object [("children", .array [object, .null])]
    let w := (own Sample.schema (Sample.nodeOf "old" 1 [] [] false)).value
    let fresh := Value.fresh Sample.schema child
    (w.fill Sample.schema none doc.lookup).value.result = .ok () ∧
      (∃ ws x, (w.fill Sample.schema none doc.lookup).value.wrapper.contents? = some (.record "Node" ws) ∧
        ws[3]? = some x ∧ x.chainEnd = .list child [fresh, fresh]) ∧
      filledElement Sample.schema none child object = (.ok (), some (.ptr (Sample.nodeOf "lost" 0 [] [] false))) ∧
      fresh ≠ .ptr (Sample.nodeOf "lost" 0 [] [] false) := by
  intro child object doc w fresh
  have hw : Built Sample.schema w := .own (Sample.wellTyped_nodeOf "old" 1 [] false (by simp) (by simp))
  have hok : (w.fill Sample.schema none doc.lookup).value.result = .ok () := by cbv
  have hd : (Sample.schema.fields "Node")[3]? = some ⟨"children", .slice child, [("xml", "c")], true⟩ := rfl
  have hk : FieldDecl.key? none ⟨"children", .slice child, [("xml", "c")], true⟩ = some "children" := rfl
  have hitems : doc.get? "children" = some (.array [object, .null]) := rfl
  obtain ⟨hleaves, -⟩ := fill_array hw rfl hd hk rfl rfl hitems ⟨object, by simp, rfl⟩
  obtain ⟨ws, x, ys, hcontents, hx, hlist, -, -, rfl⟩ := hleaves hok
  refine ⟨hok, ⟨ws, x, hcontents, hx, hlist⟩, by cbv, ?_⟩
  have hfresh : fresh = .ptr (.record "Node" [.scalar (.string ""), .nil (.box (.scalar (.int ⟨false, .w64⟩))),
      .list (.slice Sample.byte) [], .list child [], .scalar (.bool false)]) := by
    dsimp only [fresh, child]
    cbv
  rw [hfresh]
  simp [Sample.nodeOf]

end DynAssign
