/-
The order of a fill, and what a fault leaves.

The fields that take part have their turns in declaration order. `Turns` says of a run how it went: the first n
declared fields are through, and the run either ended there or failed at the field behind them. Each field that had
its turn holds what it makes of its own answer (`Answer.alone`), every other field what it held before, its pointers
allocated.

- `turns_walk`: a walk goes like this, by induction along the declarations.
- `Wrapper.fill_in_order`: so does a fill of any writable wrapper on a record, and two runs that reach a field with
  the same contents and the same answer leave the same in it, whatever the other fields hold and are answered.
-/
import DynAssign.Proofs.Effect

namespace DynAssign

/-- How a run over declared fields with these values went. A turn of a field gives the outcome and what the field holds
then, and `rest` is what becomes of a field that has no turn. -/
structure Turns (tag : Option String) (turn : FieldDecl → String → Value → Except Fault Unit × Option Value)
    (rest : FieldDecl → Value → Value) (ds : List FieldDecl) (vs : List Value) (n : Nat) (after : Walked) : Prop where
  length : after.values.length = vs.length
  asked : after.asked = (ds.take (n + 1)).filterMap (·.key? tag)
  /-- the fields in front of n that take part took their answers -/
  finished : ∀ p d key v, ds[p]? = some d → d.key? tag = some key → vs[p]? = some v → p < n →
    turn d key v = (.ok (), after.values[p]?)
  /-- no field is left, or the field at n failed -/
  ending : n = ds.length ∧ after.result = .ok () ∨
    ∃ d key v e, ds[n]? = some d ∧ d.key? tag = some key ∧ vs[n]? = some v ∧
      turn d key v = (.error e, after.values[n]?) ∧ after.result = .error (.inField d.name e)
  /-- the fields that take no part, and those behind the fault -/
  kept : ∀ p d v, ds[p]? = some d → vs[p]? = some v → d.key? tag = none ∨ n < p → after.values[p]? = some (rest d v)

namespace Turns

variable {tag : Option String} {turn : FieldDecl → String → Value → Except Fault Unit × Option Value}
  {rest : FieldDecl → Value → Value} {d : FieldDecl} {ds : List FieldDecl} {v x : Value} {vs : List Value} {n : Nat}
  {after : Walked}

theorem cons (h : Turns tag turn rest ds vs n after)
    (hturn : ∀ key, d.key? tag = some key → turn d key v = (.ok (), some x))
    (hkept : d.key? tag = none → x = rest d v) :
    Turns tag turn rest (d :: ds) (v :: vs) (n + 1)
      ⟨(d.key? tag).toList ++ after.asked, after.result, x :: after.values⟩ where
  length := by simp [h.length]
  asked := by
    rw [h.asked, List.take_succ_cons]
    cases hk : d.key? tag <;> simp [hk]
  finished p d' key v' hd hk hv hp := by
    cases p with
    | zero =>
      obtain rfl : d = d' := by simpa using hd
      obtain rfl : v = v' := by simpa using hv
      exact hturn key hk
    | succ p => exact h.finished p d' key v' (by simpa using hd) hk (by simpa using hv) (by omega)
  ending := by
    rcases h.ending with ⟨rfl, hr⟩ | ⟨d', key, v', e, hd, hk, hv, ht, hr⟩
    · exact .inl ⟨by simp, hr⟩
    · exact .inr ⟨d', key, v', e, by simpa using hd, hk, by simpa using hv, by simpa using ht, hr⟩
  kept p d' v' hd hv hp := by
    cases p with
    | zero =>
      obtain rfl : d = d' := by simpa using hd
      obtain rfl : v = v' := by simpa using hv
      rcases hp with hk | hp
      · simp [hkept hk]
      · omega
    | succ p => exact h.kept p d' v' (by simpa using hd) (by simpa using hv) (hp.imp id (by omega))

theorem fault (ds : List FieldDecl) (vs : List Value) {key : String} {e : Fault} (hk : d.key? tag = some key)
    (ht : turn d key v = (.error e, some x)) :
    Turns tag turn (fun _ v => v) (d :: ds) (v :: vs) 0 ⟨[key], .error (.inField d.name e), x :: vs⟩ where
  length := by simp
  asked := by simp [hk]
  finished p _ _ _ _ _ _ hp := by omega
  ending := .inr ⟨d, key, v, e, rfl, hk, rfl, ht, rfl⟩
  kept p d' v' hd hv hp := by
    cases p with
    | zero =>
      obtain rfl : d = d' := by simpa using hd
      rcases hp with hk' | hp
      · rw [hk] at hk'
        cases hk'
      · omega
    | succ p => simpa using hv

end Turns

/-- **A walk goes turn by turn.** -/
theorem turns_walk (tag : Option String) (step : FieldRule) {ds : List FieldDecl} {vs : List Value}
    (hlen : ds.length = vs.length) :
    ∃ n, Turns tag (fun d key v => ((step key d.name v).1, some (step key d.name v).2)) (fun _ v => v) ds vs n
      (walk tag step ds vs) := by
  induction ds generalizing vs with
  | nil =>
    obtain rfl : vs = [] := by simpa using hlen.symm
    exact ⟨0, rfl, rfl, by simp, .inl ⟨rfl, rfl⟩, by simp⟩
  | cons d ds ih => cases vs with
    | nil => simp at hlen
    | cons v vs =>
      have hlen : ds.length = vs.length := by simpa using hlen
      obtain ⟨n, hrest⟩ := ih hlen
      cases hk : d.key? tag with
      | none =>
        refine ⟨n + 1, ?_⟩
        rw [walk_cons_none hk]
        have hcons := hrest.cons (d := d) (v := v) (x := v) (by simp [hk]) (fun _ => rfl)
        simpa [hk] using hcons
      | some key =>
        cases hr : step key d.name v with
        | mk r x => cases r with
          | error e =>
            refine ⟨0, ?_⟩
            rw [walk_cons_error hk hr]
            exact .fault ds vs hk (by rw [hr])
          | ok u =>
            refine ⟨n + 1, ?_⟩
            rw [walk_cons_ok hk hr]
            have hcons := hrest.cons (d := d) (v := v) (x := x) (fun key' hk' => by
              obtain rfl : key = key' := Option.some.inj (hk.symm.trans hk')
              rw [hr]) (fun hno => by simp [hk] at hno)
            simpa [hk] using hcons

/-! ## Turns of wrapped fields -/

/-- A field takes an answer on its own: the outcome, and what the field stores then. The field is wrapped where it lies,
and there is no record around it. -/
def Answer.alone (S : Schema) (tag : Option String) (a : Answer) (d : FieldDecl) (key : String) (old : Value) :
    Except Fault Unit × Option Value :=
  let after := (a.feed S tag ⟨⟨d.name, d.ty, d.tags, 0, 0⟩, tag.map fun _ => key, (Wrapper.locate S old).value⟩).value
  (after.1, after.2.storage?)

/-- a field that has no turn: if it is visible, the pointers on its chain are allocated -/
def FieldDecl.passed (S : Schema) (d : FieldDecl) (old : Value) : Value :=
  if d.visible then (old.allocate S).value else old

variable {S : Schema} {tag : Option String} {d : FieldDecl} {ds : List FieldDecl} {vs : List Value}

theorem Answer.alone_eq (l : Lookup) {key : String} (hk : d.key? tag = some key) (old : Value) :
    (l key).alone S tag d key old =
      ((l.rule S tag key d.name (d.passed S old)).1, some (l.rule S tag key d.name (d.passed S old)).2) := by
  have hw := Holds.locate S old
  have hty := ty_effect S tag (l key) key d.name (old.allocate S).value.chainEnd
  rw [hw.ty_chainEnd] at hty
  have hfeed := value_feed S tag (l key) _ _ hw ⟨d.name, d.ty, d.tags, 0, 0⟩ (tag.map fun _ => key)
  rw [Wrapper.getD_key hk] at hfeed
  rw [alone, hfeed, FieldDecl.passed, if_pos (Wrapper.visible_of_key? hk)]
  exact Prod.ext rfl (hw.put hty).storage

theorem getElem?_allocateVisible {p : Nat} {v : Value} (hd : ds[p]? = some d) (hv : vs[p]? = some v) :
    (Value.allocateVisible S ds vs).value[p]? = some (d.passed S v) :=
  Value.getElem?_allocateVisible hd hv

/-- turns that start from allocated pointers, seen from the values before the allocation -/
theorem Turns.of_allocated {l : Lookup} {n : Nat} {after : Walked}
    (h : Turns tag (fun d key v => ((l.rule S tag key d.name v).1, some (l.rule S tag key d.name v).2)) (fun _ v => v)
      ds (Value.allocateVisible S ds vs).value n after) :
    Turns tag (fun d key => (l key).alone S tag d key) (fun d => d.passed S) ds vs n after where
  length := by rw [h.length, Value.length_allocateVisible]
  asked := h.asked
  finished p d key v hd hk hv hp := by
    rw [Answer.alone_eq l hk]
    exact h.finished p d key _ hd hk (getElem?_allocateVisible hd hv) hp
  ending := by
    rcases h.ending with hend | ⟨d, key, x, e, hd, hk, hx, ht, hr⟩
    · exact .inl hend
    · have hlt : n < vs.length := by
        rw [← Value.length_allocateVisible S ds]
        exact (List.getElem?_eq_some_iff.1 hx).1
      have hv : vs[n]? = some vs[n] := List.getElem?_eq_getElem hlt
      rw [getElem?_allocateVisible hd hv] at hx
      cases hx
      exact .inr ⟨d, key, _, e, hd, hk, hv, (Answer.alone_eq l hk _).trans ht, hr⟩
  kept p d v hd hv hp := h.kept p d _ hd (getElem?_allocateVisible hd hv) hp

/-- a walk over a record goes turn by turn, seen from the values before their pointers were allocated -/
theorem turns_walkRecord (S : Schema) (tag : Option String) (l : Lookup) {name : String}
    (hlen : (S.fields name).length = vs.length) :
    ∃ n, Turns tag (fun d key => (l key).alone S tag d key) (fun d => d.passed S) (S.fields name) vs n
      (walkRecord S tag (l.rule S tag) (.record name vs)).1 := by
  have hlen' := hlen.trans (Value.length_allocateVisible S (S.fields name) vs).symm
  obtain ⟨n, hturns⟩ := turns_walk tag (l.rule S tag) hlen'
  exact ⟨n, hturns.of_allocated⟩

section

variable {turn : FieldDecl → String → Value → Except Fault Unit × Option Value} {rest : FieldDecl → Value → Value}
  {n p : Nat} {after : Walked} {key : String} {v : Value}

theorem Turns.ending_at (h : Turns tag turn rest ds vs n after) (hd : ds[n]? = some d) (hk : d.key? tag = some key)
    (hv : vs[n]? = some v) :
    ∃ e, turn d key v = (.error e, after.values[n]?) ∧ after.result = .error (.inField d.name e) := by
  rcases h.ending with ⟨rfl, -⟩ | ⟨d', key', v', e, hd', hk', hv', ht, hr⟩
  · simp at hd
  · obtain rfl : d = d' := Option.some.inj (hd.symm.trans hd')
    obtain rfl : key = key' := Option.some.inj (hk.symm.trans hk')
    obtain rfl : v = v' := Option.some.inj (hv.symm.trans hv')
    exact ⟨e, ht, hr⟩

/-- a field that had its turn holds what the turn gives, whether it took its answer or failed -/
theorem Turns.reached (h : Turns tag turn rest ds vs n after) (hd : ds[p]? = some d) (hk : d.key? tag = some key)
    (hv : vs[p]? = some v) (hp : p ≤ n) : after.values[p]? = (turn d key v).2 := by
  rcases Nat.lt_or_eq_of_le hp with hlt | rfl
  · rw [h.finished p d key v hd hk hv hlt]
  · obtain ⟨e, ht, -⟩ := h.ending_at hd hk hv
    rw [ht]

theorem Turns.finished_of_ok (h : Turns tag turn rest ds vs n after) (hok : after.result = .ok ())
    (hd : ds[p]? = some d) (hk : d.key? tag = some key) (hv : vs[p]? = some v) :
    turn d key v = (.ok (), after.values[p]?) := by
  refine h.finished p d key v hd hk hv ?_
  rcases h.ending with ⟨rfl, -⟩ | ⟨d', key', v', e, -, -, -, -, hr⟩
  · exact (List.getElem?_eq_some_iff.1 hd).1
  · cases hok.symm.trans hr

theorem Turns.failed_of_error {e : Fault} (h : Turns tag turn rest ds vs n after) (hnames : (ds.map (·.name)).Nodup)
    (he : after.result = .error (.inField d.name e)) (hd : ds[p]? = some d) (hk : d.key? tag = some key)
    (hv : vs[p]? = some v) : (turn d key v).1 = .error e := by
  rcases h.ending with ⟨-, hr⟩ | ⟨d', -, -, e', hd', -, -, -, hr⟩
  · cases he.symm.trans hr
  · have hfault := he.symm.trans hr
    simp only [Except.error.injEq, Fault.inField.injEq] at hfault
    -- the run ends at a field of that name, and there is one
    have hlt : p < (ds.map (·.name)).length := by
      rw [List.length_map]
      exact (List.getElem?_eq_some_iff.1 hd).1
    have hn : p = n := by
      refine (List.getElem?_inj hlt hnames).1 ?_
      rw [List.getElem?_map, List.getElem?_map, hd, hd', Option.map_some, Option.map_some, hfault.1]
    subst hn
    obtain ⟨e'', ht, hr'⟩ := h.ending_at hd hk hv
    cases he.symm.trans hr'
    rw [ht]

end

/-! ## Fills -/

/-- a run over the fields of a record with these values, n declared fields of which are through, left this record -/
def FilledInOrder (S : Schema) (tag : Option String) (l : Lookup) (name : String) (vs : List Value) (out : Filled)
    (n : Nat) (ws : List Value) : Prop :=
  out.wrapper.contents? = some (.record name ws) ∧
    Turns tag (fun d key => (l key).alone S tag d key) (fun d => d.passed S) (S.fields name) vs n
      ⟨out.asked, out.result, ws⟩

/-- what a field holds after a run is decided by its contents before, its own answer, and whether it was reached -/
theorem FilledInOrder.unaffected {l l' : Lookup} {name : String} {vs vs' ws ws' : List Value} {out out' : Filled}
    {n n' p : Nat} {key : String} {v : Value} (h : FilledInOrder S tag l name vs out n ws)
    (h' : FilledInOrder S tag l' name vs' out' n' ws') (hd : (S.fields name)[p]? = some d) (hk : d.key? tag = some key)
    (hv : vs[p]? = some v) (hv' : vs'[p]? = some v) (hl : l' key = l key) (hp : p ≤ n' ↔ p ≤ n) : ws'[p]? = ws[p]? := by
  by_cases hle : p ≤ n
  · have hturn := h.2.reached hd hk hv hle
    have hturn' := h'.2.reached hd hk hv' (hp.2 hle)
    rw [hl] at hturn'
    exact hturn'.trans hturn.symm
  · have hlt : n < p := by omega
    have hlt' : n' < p := by
      rw [← hp] at hle
      omega
    exact (h'.2.kept p d v hd hv' (.inr hlt')).trans (h.2.kept p d v hd hv (.inr hlt)).symm

theorem Holds.filledInOrder {st : Value} {w : Wrapper} {name : String} (h : Holds S st w) (hst : WellTyped S st)
    (hc : st.chainEnd = .record name vs) (tag : Option String) (l : Lookup) :
    ∃ n ws, FilledInOrder S tag l name vs (w.fill S tag l).value n ws := by
  have hname : st.ty.resolved = .record name := h.resolved_of_chainEnd hc
  have hend := Value.wellTyped_chainEnd hst
  rw [hc] at hend
  have hfill := h.value_fill hname tag l
  rw [hc] at hfill
  obtain ⟨n, hturns⟩ := turns_walkRecord S tag l hend.length_fields
  refine ⟨n, (walkRecord S tag (l.rule S tag) (.record name vs)).1.values, ?_, ?_⟩
  · rw [hfill]
    exact h.contents_put hname.symm
  · rw [hfill]
    exact hturns

/-- **Fields are filled in order, up to the first fault, and apart from each other.** A fill asks for the keys of the
fields that take part, in declaration order, up to the first field that fails; that field's fault is the outcome. The
fields in front hold what they make of their answers alone, those behind what they held. And a field that another run
of any kind reaches too, or passes too, with the same contents and the same answer, holds the same after both. -/
theorem Wrapper.fill_in_order {w : Wrapper} (hw : Built S w) {name : String}
    (hc : w.contents? = some (.record name vs)) (tag : Option String) (l : Lookup) :
    ∃ n ws, FilledInOrder S tag l name vs (w.fill S tag l).value n ws ∧
      ∀ (l' : Lookup) (vs' : List Value) (out' : Filled) (n' : Nat) (ws' : List Value),
        FilledInOrder S tag l' name vs' out' n' ws' →
        ∀ p d key v, (S.fields name)[p]? = some d → d.key? tag = some key → vs[p]? = some v → vs'[p]? = some v →
          l' key = l key → (p ≤ n' ↔ p ≤ n) → ws'[p]? = ws[p]? := by
  obtain ⟨st, hst, h⟩ := hw.holds
  have hend : st.chainEnd = .record name vs := Option.some.inj (h.contents.symm.trans hc)
  obtain ⟨n, ws, horder⟩ := h.filledInOrder hst hend tag l
  refine ⟨n, ws, horder, ?_⟩
  intro l' vs' out' n' ws' horder' p d key v hd hk hv hv' hl hp
  exact horder.unaffected horder' hd hk hv hv' hl hp

/-- the fields of a node by their annotations: the weight fails, and the rows are not asked for -/
theorem Wrapper.fill_in_order_node :
    let l := Lookup.ofEntries [("l", .value (.literal "top")), ("w", .value (.literal "heavy"))]
    let w := (locate Sample.schema (Sample.nodeOf "old" 1 [[9]] [] true)).value
    let out := (w.fill Sample.schema (some "json") l).value
    out.asked = ["l", "w"] ∧ out.result = .error (.inField "weight" (.coercion "\"heavy\"" "u64")) ∧
      ∃ vs n ws, w.contents? = some (.record "Node" vs) ∧
        FilledInOrder Sample.schema (some "json") l "Node" vs out n ws := by
  intro l w out
  have hw : Built Sample.schema w := .locate (Sample.wellTyped_nodeOf "old" 1 [[9]] true (by simp) (by simp))
  obtain ⟨n, ws, horder, -⟩ := fill_in_order hw rfl (some "json") l
  exact ⟨by cbv, by cbv, _, n, ws, rfl, horder⟩

end DynAssign
