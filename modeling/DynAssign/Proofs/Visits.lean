/-
The fields that a fill comes to, and the first of them that fails.

`Lookup.visits` lists the fields depth first: those of a record in declaration order, and in front of each field the
fields of the records that its answer fills, so a field stands where its turn ends. A visit knows the fields around it,
outermost first. `Visit.Lies` says by what names and answers a visit is come to, and `mem_visits` that the list has all
of them.

`Blames` says how an outcome relates to a list of visits: an outcome without a fault means that every field on the list
takes its answer, whatever it holds, and a fault is that of the first field that does not, put in the context of the
fields around it.

- `blames_walk`: a walk over a record blames the visits to its fields, by induction along the declarations.
- `Answer.explained`: so does an answer at a field, by induction on the answer.
- `Wrapper.fill_first_fault`: the main statement, on every writable wrapper on a record.
-/
import DynAssign.Proofs.Faults
import DynAssign.Proofs.Untouched

namespace DynAssign

/-! ## Visits -/

/-- a field that was asked for by a key, and the answer -/
structure Asked where
  decl : FieldDecl
  key : String
  answer : Answer

/-- a field that a fill comes to; each field around it comes with the place of the element that was being built there,
if the elements are counted -/
structure Visit extends Asked where
  around : List (Asked × Option Nat)

/-- a visit seen from one field further out -/
def Visit.within (x : Asked × Option Nat) (u : Visit) : Visit := { u with around := x :: u.around }

/-- a fault in a record that the answer to a field was filling -/
def Asked.context (x : Asked) (place : Option Nat) (e : Fault) : Fault :=
  .inField x.decl.name (match place with
    | none => e
    | some i => .inElement i e)

/-- a fault of a visited field, seen from where the fill started -/
def Visit.fault (u : Visit) (e : Fault) : Fault :=
  u.around.foldr (fun x e => x.1.context x.2 e) (.inField u.decl.name e)

/-- the record of a type -/
def Ty.record? : Ty → Option String
  | record name => some name
  | _ => none

/-- the record of the elements of a list, pointers of the element type aside -/
def Ty.elementRecord? : Ty → Option String
  | slice e => e.resolved.record?
  | _ => none

theorem Ty.record?_eq_some {t : Ty} {name : String} : t.record? = some name ↔ t = .record name := by
  cases t <;> simp [record?]

theorem Ty.elementRecord?_eq_some {t : Ty} {name : String} :
    t.elementRecord? = some name ↔ ∃ e, t = .slice e ∧ e.resolved = .record name := by
  cases t <;> simp [elementRecord?, record?_eq_some]

/-- the visits to the fields of a record that take part, in declaration order -/
def fieldVisits (tag : Option String) (visits : FieldDecl → String → List Visit) (ds : List FieldDecl) : List Visit :=
  ds.flatMap fun d => match d.key? tag with
    | none => []
    | some key => visits d key

namespace Answer

mutual

/-- the visits inside a field that takes an answer, to the fields of the records that the answer fills -/
def inside (S : Schema) (tag : Option String) : Answer → FieldDecl → String → List Visit
  | nothing, _, _ => []
  | value _, _, _ => []
  | nested l, d, key => match d.ty.resolved.record? <|> d.ty.resolved.elementRecord? with
    | none => []
    | some name =>
      let visits d key := inside S tag (l key) d key ++ [⟨⟨d, key, l key⟩, []⟩]
      (fieldVisits tag visits (S.fields name)).map (.within (⟨d, key, .nested l⟩, none))
  | several ls, d, key => match d.ty.resolved.elementRecord? with
    | some name => insideEach S tag ls 0 ⟨d, key, .several ls⟩ name
    | none => match d.ty.resolved.record? with
      | some name => insideLast S tag ls ⟨d, key, .several ls⟩ name
      | none => []

/-- the visits inside the elements that are filled from several lookups -/
def insideEach (S : Schema) (tag : Option String) : List (String → Answer) → Nat → Asked → String → List Visit
  | [], _, _, _ => []
  | l :: ls, i, x, name =>
    let visits d key := inside S tag (l key) d key ++ [⟨⟨d, key, l key⟩, []⟩]
    (fieldVisits tag visits (S.fields name)).map (.within (x, some i)) ++ insideEach S tag ls (i + 1) x name

/-- the visits inside a record that is filled from the last of several lookups -/
def insideLast (S : Schema) (tag : Option String) : List (String → Answer) → Asked → String → List Visit
  | [], _, _ => []
  | [l], x, name =>
    let visits d key := inside S tag (l key) d key ++ [⟨⟨d, key, l key⟩, []⟩]
    (fieldVisits tag visits (S.fields name)).map (.within (x, none))
  | _ :: l :: ls, x, name => insideLast S tag (l :: ls) x name

end

/-- the visits of a field that takes an answer: those inside, and the field itself -/
def visits (S : Schema) (tag : Option String) (a : Answer) (d : FieldDecl) (key : String) : List Visit :=
  a.inside S tag d key ++ [⟨⟨d, key, a⟩, []⟩]

end Answer

/-- the visits of a fill of a record from a lookup -/
def Lookup.visits (S : Schema) (tag : Option String) (l : Lookup) (name : String) : List Visit :=
  fieldVisits tag (fun d key => (l key).visits S tag d key) (S.fields name)

/-! ## Where the visited fields lie -/

/-- the records that a field of a type fills from an answer: the place of the element if the elements are counted, the
name of the record, and the lookup -/
def Answer.records (t : Ty) : Answer → List (Option Nat × String × Lookup)
  | nothing | value _ => []
  | nested l => ((t.record? <|> t.elementRecord?).map fun name => (none, name, l)).toList
  | several ls => match t.elementRecord? with
    | some name => ls.zipIdx.map fun (l, i) => (some i, name, l)
    | none => match t.record? with
      | some name => (ls.getLast?.map fun l => (none, name, l)).toList
      | none => []

/-- the visits to the fields of a record that a field fills from its answer -/
def Asked.visitsIn (S : Schema) (tag : Option String) (x : Asked) : Option Nat × String × Lookup → List Visit
  | (place, name, l) => (l.visits S tag name).map (.within (x, place))

/-- A visit comes to a field of a record, or to one of a record that a field of it fills from its answer, and so on. The
fields that take part are visible, and carry the annotation if there is one. -/
inductive Visit.Lies (S : Schema) (tag : Option String) : String → Lookup → Visit → Prop where
  | here {name key : String} {l : Lookup} {d : FieldDecl} (hd : d ∈ S.fields name) (hkey : d.key? tag = some key) :
    Lies S tag name l ⟨⟨d, key, l key⟩, []⟩
  | inside {name inner key : String} {l m : Lookup} {d : FieldDecl} {place : Option Nat} {u : Visit}
    (hd : d ∈ S.fields name) (hkey : d.key? tag = some key)
    (hrecord : (place, inner, m) ∈ (l key).records d.ty.resolved) (h : Lies S tag inner m u) :
    Lies S tag name l (u.within (⟨d, key, l key⟩, place))

section

variable {S : Schema} {tag : Option String}

theorem mem_fieldVisits {visits : FieldDecl → String → List Visit} {ds : List FieldDecl} {u : Visit} :
    u ∈ fieldVisits tag visits ds ↔ ∃ d ∈ ds, ∃ key, d.key? tag = some key ∧ u ∈ visits d key := by
  rw [fieldVisits, List.mem_flatMap]
  refine exists_congr fun d => and_congr_right fun _ => ?_
  cases d.key? tag <;> simp

theorem fieldVisits_cons_none {visits : FieldDecl → String → List Visit} {d : FieldDecl} {ds : List FieldDecl}
    (hk : d.key? tag = none) : fieldVisits tag visits (d :: ds) = fieldVisits tag visits ds := by
  simp [fieldVisits, hk]

theorem fieldVisits_cons_some {visits : FieldDecl → String → List Visit} {d : FieldDecl} {ds : List FieldDecl}
    {key : String} (hk : d.key? tag = some key) :
    fieldVisits tag visits (d :: ds) = visits d key ++ fieldVisits tag visits ds := by
  simp [fieldVisits, hk]

namespace Answer

theorem insideEach_eq (ls : List Lookup) (i : Nat) (x : Asked) (name : String) :
    insideEach S tag ls i x name =
      ((ls.zipIdx i).map fun (l, i) => (some i, name, l)).flatMap (x.visitsIn S tag) := by
  induction ls generalizing i with
  | nil => rfl
  | cons l ls ih =>
    rw [insideEach, ih, List.zipIdx_cons, List.map_cons, List.flatMap_cons]
    rfl

theorem insideLast_eq (ls : List Lookup) (x : Asked) (name : String) :
    insideLast S tag ls x name =
      ((ls.getLast?.map fun l => (none, name, l)).toList).flatMap (x.visitsIn S tag) := by
  induction ls with
  | nil => rfl
  | cons l ls ih => cases ls with
    | nil => exact (List.append_nil _).symm
    | cons l' ls => exact ih

theorem inside_eq (a : Answer) (d : FieldDecl) (key : String) :
    a.inside S tag d key = (a.records d.ty.resolved).flatMap ((⟨d, key, a⟩ : Asked).visitsIn S tag) := by
  cases a with
  | nothing => rfl
  | value x => rfl
  | nested l =>
    rw [inside, records]
    cases d.ty.resolved.record? <|> d.ty.resolved.elementRecord? with
    | none => rfl
    | some name => exact (List.append_nil _).symm
  | several ls =>
    rw [inside, records]
    cases d.ty.resolved.elementRecord? with
    | some name => exact insideEach_eq ls 0 _ name
    | none => cases d.ty.resolved.record? with
      | some name => exact insideLast_eq ls _ name
      | none => rfl

theorem mem_builders_of_mem_records {a : Answer} {t : Ty} {place : Option Nat} {name : String} {m : Lookup}
    (h : (place, name, m) ∈ a.records t) : m ∈ a.builders := by
  cases a with
  | nothing => cases h
  | value x => cases h
  | nested l =>
    obtain ⟨name', -, hr⟩ : ∃ name', _ ∧ (none, name', l) = (place, name, m) := by
      simpa only [records, Option.mem_toList, Option.mem_def, Option.map_eq_some_iff] using h
    cases hr
    exact List.mem_singleton_self _
  | several ls =>
    rw [records] at h
    split at h
    · obtain ⟨⟨l, i⟩, hl, hr⟩ := List.mem_map.1 h
      cases hr
      exact List.fst_mem_of_mem_zipIdx hl
    · split at h
      · obtain ⟨l, hl, hr⟩ : ∃ l, ls.getLast? = some l ∧ (none, _, l) = (place, name, m) := by
          simpa only [Option.mem_toList, Option.mem_def, Option.map_eq_some_iff] using h
        cases hr
        exact List.mem_of_getLast? hl
      · cases h

theorem isLookups_of_mem_records {a : Answer} {t : Ty} {r : Option Nat × String × Lookup} (h : r ∈ a.records t) :
    a.isLookups = true := by
  cases a with
  | nothing => cases h
  | value x => cases h
  | nested l => rfl
  | several ls => rfl

theorem mem_visits {a : Answer} {d : FieldDecl} {key : String} {u : Visit} :
    u ∈ a.visits S tag d key ↔
      (∃ place name m, (place, name, m) ∈ a.records d.ty.resolved ∧
        ∃ v ∈ m.visits S tag name, u = v.within (⟨d, key, a⟩, place)) ∨ u = ⟨⟨d, key, a⟩, []⟩ := by
  rw [visits, inside_eq, List.mem_append, List.mem_singleton, List.mem_flatMap]
  simp only [Prod.exists, Asked.visitsIn, List.mem_map, eq_comm (a := u)]

end Answer

theorem Visit.Lies.mem_visits {name : String} {l : Lookup} {u : Visit} (h : u.Lies S tag name l) :
    u ∈ l.visits S tag name := by
  induction h with
  | here hd hkey => exact mem_fieldVisits.2 ⟨_, hd, _, hkey, Answer.mem_visits.2 (.inr rfl)⟩
  | inside hd hkey hrecord h ih =>
    exact mem_fieldVisits.2 ⟨_, hd, _, hkey, Answer.mem_visits.2 (.inl ⟨_, _, _, hrecord, _, ih, rfl⟩)⟩

/-- the visits to a record lie in it, if those to the records that its fields fill do -/
theorem Visit.lies_of_answers {l : Lookup}
    (hl : ∀ key, ∀ m ∈ (l key).builders, ∀ name, ∀ u ∈ m.visits S tag name, u.Lies S tag name m) {name : String}
    {u : Visit} (hu : u ∈ l.visits S tag name) : u.Lies S tag name l := by
  obtain ⟨d, hd, key, hkey, hu⟩ := mem_fieldVisits.1 hu
  rcases Answer.mem_visits.1 hu with ⟨place, inner, m, hrecord, v, hv, rfl⟩ | rfl
  · exact .inside hd hkey hrecord (hl key m (Answer.mem_builders_of_mem_records hrecord) inner v hv)
  · exact .here hd hkey

theorem Answer.lies_of_mem_visits (S : Schema) (tag : Option String) (a : Answer) :
    ∀ m ∈ a.builders, ∀ name, ∀ u ∈ m.visits S tag name, u.Lies S tag name m := by
  induction a using nestedInduction with
  | nothing => simp [builders]
  | value x => simp [builders]
  | nested l ih =>
    intro m hm name u hu
    obtain rfl := List.mem_singleton.1 hm
    exact Visit.lies_of_answers ih hu
  | several ls ih =>
    intro m hm name u hu
    exact Visit.lies_of_answers (ih m hm) hu

theorem Lookup.mem_visits {l : Lookup} {name : String} {u : Visit} :
    u ∈ l.visits S tag name ↔ u.Lies S tag name l :=
  ⟨Visit.lies_of_answers fun key => Answer.lies_of_mem_visits S tag (l key), Visit.Lies.mem_visits⟩

/-- lookups were answered to the fields around a visited field -/
theorem Visit.Lies.isLookups_around {name : String} {l : Lookup} {u : Visit} (h : u.Lies S tag name l) :
    ∀ x ∈ u.around, x.1.answer.isLookups = true := by
  induction h with
  | here hd hkey => simp
  | inside hd hkey hrecord h ih =>
    rw [within, List.forall_mem_cons]
    exact ⟨Answer.isLookups_of_mem_records hrecord, ih⟩

end

/-! ## Outcomes -/

/-- a field takes its answer, whatever it holds -/
def Asked.Taken (S : Schema) (tag : Option String) (x : Asked) : Prop :=
  ∀ old, WellTyped S old → old.ty = x.decl.ty → (x.answer.alone S tag x.decl x.key old).1 = .ok ()

/-- The faults of a field itself, none of them in a record that it fills: lookups were answered and its type has no
record to fill, or a value that cannot be assigned to any wrapper of the field's type. -/
inductive Asked.Refuses (S : Schema) (x : Asked) : Fault → Prop where
  | nested {l : Lookup} (ha : x.answer = .nested l) (hrecord : x.decl.ty.resolved.record? = none)
    (helements : x.decl.ty.resolved.elementRecord? = none) :
    Refuses S x (.shapeMismatch x.key x.decl.name "a getter")
  | several {ls : List Lookup} (ha : x.answer = .several ls) (hrecord : x.decl.ty.resolved.record? = none)
    (helements : x.decl.ty.resolved.elementRecord? = none) :
    Refuses S x (.shapeMismatch x.key x.decl.name "a list of getters")
  | value {v : Value} {e : Fault} (ha : x.answer = .value v)
    (h : ∀ w, Built S w → w.declared = some x.decl.ty → (w.assign S v).value.1 = .error e) : Refuses S x e

/-- What an outcome says about a list of visits: every field took its answer, or the first that did not gave the
fault. -/
def Blames (S : Schema) (tag : Option String) (us : List Visit) : Except Fault Unit → Prop
  | .ok () => ∀ u ∈ us, u.Taken S tag
  | .error e => ∃ before u after inner, us = before ++ u :: after ∧ (∀ x ∈ before, x.Taken S tag) ∧
      u.Refuses S inner ∧ e = u.fault inner

namespace Blames

variable {S : Schema} {tag : Option String} {us vs : List Visit} {r : Except Fault Unit} {e : Fault}

theorem nil : Blames S tag [] (.ok ()) := by simp [Blames]

/-- an outcome blames later visits if the earlier ones went well -/
theorem append (hus : Blames S tag us (.ok ())) (hvs : Blames S tag vs r) : Blames S tag (us ++ vs) r := by
  cases r with
  | ok x =>
    intro u hu
    exact (List.mem_append.1 hu).elim (hus u) (hvs u)
  | error e =>
    obtain ⟨before, u, after, inner, rfl, hbefore, hu, he⟩ := hvs
    refine ⟨us ++ before, u, after, inner, by simp, ?_, hu, he⟩
    intro x hx
    exact (List.mem_append.1 hx).elim (hus x) (hbefore x)

/-- nothing is said about the visits behind the one that is blamed -/
theorem append_error (hus : Blames S tag us (.error e)) (vs : List Visit) : Blames S tag (us ++ vs) (.error e) := by
  obtain ⟨before, u, after, inner, rfl, hbefore, hu, he⟩ := hus
  exact ⟨before, u, after ++ vs, inner, by simp, hbefore, hu, he⟩

/-- the visits to a record that a field fills, seen from outside the field -/
theorem within (hus : Blames S tag us r) (x : Asked) (place : Option Nat) :
    Blames S tag (us.map (.within (x, place))) (r.mapError (x.context place)) := by
  cases r with
  | ok u =>
    intro v hv
    obtain ⟨u, hu, rfl⟩ := List.mem_map.1 hv
    exact hus u hu
  | error e =>
    obtain ⟨before, u, after, inner, rfl, hbefore, hu, rfl⟩ := hus
    refine ⟨before.map (.within (x, place)), u.within (x, place), after.map (.within (x, place)), inner, by simp, ?_,
      hu, rfl⟩
    intro v hv
    obtain ⟨u, hu, rfl⟩ := List.mem_map.1 hv
    exact hbefore u hu

end Blames

/-! ## One outcome on all contents -/

/-- a field makes the same of an answer whatever it holds, and the outcome blames the visits of the field -/
def Answer.Explained (S : Schema) (tag : Option String) (a : Answer) (d : FieldDecl) (key : String) : Prop :=
  ∃ r, (∀ v, WellTyped S v → v.ty = d.ty.resolved → (a.effect S tag key d.name v).1 = r) ∧
    Blames S tag (a.visits S tag d key) (r.mapError (.inField d.name))

/-- a walk over a record ends the same whatever the record holds, and the outcome blames the visits to its fields -/
def Lookup.Explained (S : Schema) (tag : Option String) (l : Lookup) (name : String) : Prop :=
  ∃ r, (∀ u, WellTyped S u → u.ty = .record name → (recordRule S tag (l.rule S tag) u).1 = r) ∧
    Blames S tag (l.visits S tag name) r

section

variable {S : Schema} {tag : Option String}

/-- a walk blames the visits to the fields, if each field's answer does -/
theorem blames_walk {l : Lookup} (ds : List FieldDecl)
    (hl : ∀ d ∈ ds, ∀ key, d.key? tag = some key → (l key).Explained S tag d key) :
    ∃ r, (∀ vs, vs.map Value.ty = ds.map (·.ty) → (∀ v ∈ vs, WellTyped S v) → Value.VisibleSettled ds vs →
        (walk tag (l.rule S tag) ds vs).result = r) ∧
      Blames S tag (fieldVisits tag (fun d key => (l key).visits S tag d key) ds) r := by
  induction ds with
  | nil => exact ⟨.ok (), fun vs _ _ _ => by cases vs <;> rfl, .nil⟩
  | cons d ds ih =>
    rw [List.forall_mem_cons] at hl
    obtain ⟨r, hwalk, hblames⟩ := ih hl.2
    cases hk : d.key? tag with
    | none =>
      rw [fieldVisits_cons_none hk]
      refine ⟨r, ?_, hblames⟩
      rintro (_ | ⟨v, vs⟩) htys hvs hs
      · cases htys
      rw [walk_cons_none hk]
      rw [List.forall_mem_cons] at hvs
      exact hwalk vs (List.cons.inj htys).2 hvs.2 hs.2
    | some key =>
      obtain ⟨first, heffect, hfirst⟩ := hl.1 key hk
      rw [fieldVisits_cons_some hk]
      -- the rule of the lookup has one outcome at this field
      have hrule (v : Value) (hty : v.ty = d.ty) (hv : WellTyped S v) (hs : d.visible = true → v.IsSettled) :
          ∃ x, l.rule S tag key d.name v = (first, x) := by
        have hsettled := hs (Wrapper.visible_of_key? hk)
        refine ⟨_, Prod.ext (heffect v.chainEnd (Value.wellTyped_chainEnd hv) ?_) rfl⟩
        rw [hsettled.ty_chainEnd, hty]
      cases first with
      | error e =>
        refine ⟨.error (.inField d.name e), ?_, hfirst.append_error _⟩
        rintro (_ | ⟨v, vs⟩) htys hvs hs
        · cases htys
        obtain ⟨x, hx⟩ := hrule v (List.cons.inj htys).1 (hvs v List.mem_cons_self) hs.1
        rw [walk_cons_error hk hx]
      | ok u =>
        refine ⟨r, ?_, .append hfirst hblames⟩
        rintro (_ | ⟨v, vs⟩) htys hvs hs
        · cases htys
        obtain ⟨x, hx⟩ := hrule v (List.cons.inj htys).1 (hvs v List.mem_cons_self) hs.1
        rw [walk_cons_ok hk hx]
        rw [List.forall_mem_cons] at hvs
        exact hwalk vs (List.cons.inj htys).2 hvs.2 hs.2

theorem Lookup.explained_of_answers {l : Lookup}
    (hl : ∀ key d, d.key? tag = some key → (l key).Explained S tag d key) (name : String) :
    l.Explained S tag name := by
  obtain ⟨r, hwalk, hblames⟩ := blames_walk (S.fields name) fun d _ key => hl key d
  refine ⟨r, ?_, hblames⟩
  intro u hu hty
  obtain ⟨vs, rfl⟩ := Value.eq_record_of_ty hty
  rw [WellTyped.record_iff] at hu
  exact hwalk _ ((Value.map_ty_allocateVisible S _ vs).trans hu.1) (Value.wellTyped_allocateVisible hu.2)
    (Value.visibleSettled_allocateVisible S _ vs)

namespace Answer

variable {a : Answer} {d : FieldDecl} {key : String}

/-- a field is blamed itself if the visits inside it are not, and its outcome is a fault of its own -/
theorem explained_of_refuses {e : Fault} (hin : a.inside S tag d key = [])
    (heffect : ∀ v, WellTyped S v → v.ty = d.ty.resolved → (a.effect S tag key d.name v).1 = .error e)
    (hrefuses : (⟨d, key, a⟩ : Asked).Refuses S e) : a.Explained S tag d key := by
  refine ⟨.error e, heffect, [], ⟨⟨d, key, a⟩, []⟩, [], e, ?_, by simp, hrefuses, rfl⟩
  rw [visits, hin]

/-- a field takes its answer, if its outcome blames none of the visits inside it -/
theorem explained_of_inside (hk : d.key? tag = some key) {r : Except Fault Unit}
    (heffect : ∀ v, WellTyped S v → v.ty = d.ty.resolved → (a.effect S tag key d.name v).1 = r)
    (hblames : Blames S tag (a.inside S tag d key) (r.mapError (.inField d.name))) : a.Explained S tag d key := by
  refine ⟨r, heffect, ?_⟩
  cases r with
  | error e => exact hblames.append_error _
  | ok u =>
    refine hblames.append ?_
    intro x hx
    obtain rfl := List.mem_singleton.1 hx
    intro old hold hty
    have halone := alone_eq (S := S) (fun _ => a) hk old
    rw [FieldDecl.passed, if_pos (Wrapper.visible_of_key? hk)] at halone
    rw [show a.alone S tag d key old = _ from halone]
    refine heffect _ (Value.wellTyped_chainEnd (Value.wellTyped_allocate hold)) ?_
    rw [Value.ty_chainEnd_allocate, hty]

theorem explained_value (x : Value) (hk : d.key? tag = some key) : (value x).Explained S tag d key := by
  have heffect (v : Value) (_ : WellTyped S v) (hty : v.ty = d.ty.resolved) :
      ((value x).effect S tag key d.name v).1 = (Wrapper.assigned S d.ty.resolved x).1 := by
    rw [effect, hty]
  cases hr : (Wrapper.assigned S d.ty.resolved x).1 with
  | ok u =>
    refine explained_of_inside hk heffect ?_
    rw [hr]
    exact .nil
  | error e =>
    rw [hr] at heffect
    refine explained_of_refuses rfl heffect (.value rfl fun w hw hd => ?_)
    obtain ⟨st, -, h⟩ := hw.holds
    rw [show d.ty = st.ty from Option.some.inj (hd.symm.trans h.declared)] at hr
    rw [Wrapper.value_assign h, hr]

theorem shaped_of_no_record {elements : Ty → Except Fault Unit × List Value} {rule : Value → Except Fault Unit × Value}
    {t : Ty} {v : Value} (hty : v.ty = t.resolved) (hrecord : t.resolved.record? = none)
    (helements : t.resolved.elementRecord? = none) (fault : Fault) :
    (shaped S elements rule fault v).1 = .error fault := by
  have hno : recordElement? S v.ty = none := by
    rw [Option.eq_none_iff_forall_ne_some]
    intro e he
    obtain ⟨ht, hrec⟩ := eq_slice_of_recordElement? he
    obtain ⟨name, hname⟩ := (S.isRecord_iff e).1 hrec
    rw [Ty.elementRecord?_eq_some.2 ⟨e, hty.symm.trans ht, hname⟩] at helements
    cases helements
  have hnone : ¬(S.descriptor v.ty).isRecord = true := by
    rw [hty, S.descriptor_resolved, S.isRecord_iff]
    rintro ⟨name, hname⟩
    rw [Ty.record?_eq_some.2 hname] at hrecord
    cases hrecord
  rw [shaped, hno]
  exact congrArg Prod.fst (if_neg hnone)

theorem fst_onlyElement (x : Except Fault Value) : (onlyElement x).1 = x.map fun _ => () := by
  cases x <;> rfl

theorem map_builtElement (l : Lookup) (e : Ty) :
    ((builtElement S tag (l.rule S tag) e).map fun _ => ()) =
      (recordRule S tag (l.rule S tag) (.zero S e.resolved)).1 := by
  rw [builtElement, recordRule]
  rcases walkRecord S tag (l.rule S tag) (.zero S e.resolved) with ⟨⟨asked, r, values⟩, v⟩
  cases r <;> rfl

theorem blames_builtElement {l : Lookup} {name : String} (hl : l.Explained S tag name) {e : Ty}
    (he : e.resolved = .record name) :
    Blames S tag (l.visits S tag name) ((builtElement S tag (l.rule S tag) e).map fun _ => ()) := by
  obtain ⟨r, hwalk, hblames⟩ := hl
  rwa [map_builtElement, hwalk _ (Value.wellTyped_zero S _) ((Value.ty_zero S _).trans he)]

/-- elements are built one after another up to the first that fails, and so are the visits to their records blamed -/
theorem blames_effectEach {ls : List Lookup} {name : String} (hls : ∀ l ∈ ls, l.Explained S tag name) {e : Ty}
    (he : e.resolved = .record name) (i : Nat) (x : Asked) :
    Blames S tag (insideEach S tag ls i x name) ((effectEach S tag ls i e).1.mapError (.inField x.decl.name)) := by
  induction ls generalizing i with
  | nil => exact .nil
  | cons l ls ih =>
    rw [List.forall_mem_cons] at hls
    have hfirst := (blames_builtElement hls.1 he).within x (some i)
    rw [insideEach, effectEach_cons]
    cases hbuilt : builtElement S tag (l.rule S tag) e with
    | error err =>
      rw [hbuilt] at hfirst
      exact hfirst.append_error _
    | ok y =>
      rw [hbuilt] at hfirst
      exact .append hfirst (ih hls.2 (i + 1))

theorem explained_nested {l : Lookup} (hk : d.key? tag = some key) (hl : ∀ name, l.Explained S tag name) :
    (nested l).Explained S tag d key := by
  cases hrecord : d.ty.resolved.record? with
  | some name =>
    obtain ⟨r, hwalk, hblames⟩ := hl name
    have hty := Ty.record?_eq_some.1 hrecord
    refine explained_of_inside hk (r := r) ?_ ?_
    · intro v hv hv'
      rw [effect_nested, shaped_of_record (hv'.trans hty), hwalk v hv (hv'.trans hty)]
    · rw [inside, hrecord]
      exact hblames.within ⟨d, key, nested l⟩ none
  | none => cases helements : d.ty.resolved.elementRecord? with
    | some name =>
      obtain ⟨e, hty, he⟩ := Ty.elementRecord?_eq_some.1 helements
      refine explained_of_inside hk (r := (builtElement S tag (l.rule S tag) e).map fun _ => ()) ?_ ?_
      · intro v hv hv'
        rw [effect_nested, shaped_of_records (hv'.trans hty) ((S.isRecord_iff e).2 ⟨name, he⟩), fst_onlyElement]
      · rw [inside, hrecord, helements]
        exact (blames_builtElement (hl name) he).within ⟨d, key, nested l⟩ none
    | none =>
      refine explained_of_refuses (by rw [inside, hrecord, helements]; rfl) ?_ (.nested rfl hrecord helements)
      intro v hv hv'
      rw [effect_nested, shaped_of_no_record hv' hrecord helements]

theorem explained_several {ls : List Lookup} (hk : d.key? tag = some key)
    (hls : ∀ l ∈ ls, ∀ name, l.Explained S tag name) : (several ls).Explained S tag d key := by
  cases helements : d.ty.resolved.elementRecord? with
  | some name =>
    obtain ⟨e, hty, he⟩ := Ty.elementRecord?_eq_some.1 helements
    refine explained_of_inside hk (r := (effectEach S tag ls 0 e).1) ?_ ?_
    · intro v hv hv'
      rw [effect_several, shaped_of_records (hv'.trans hty) ((S.isRecord_iff e).2 ⟨name, he⟩)]
    · rw [inside, helements]
      exact blames_effectEach (fun l hl => hls l hl name) he 0 ⟨d, key, several ls⟩
  | none => cases hrecord : d.ty.resolved.record? with
    | some name =>
      have hty := Ty.record?_eq_some.1 hrecord
      have hlast (v : Value) (hv : v.ty = d.ty.resolved) :
          (several ls).effect S tag key d.name v = effectLast S tag ls v := by
        rw [effect_several, shaped_of_record (hv.trans hty)]
      have hin : (several ls).inside S tag d key =
          ((ls.getLast?.map fun l => (none, name, l)).toList).flatMap
            ((⟨d, key, several ls⟩ : Asked).visitsIn S tag) := by
        rw [inside, helements, hrecord]
        exact insideLast_eq ls _ name
      cases hl : ls.getLast? with
      | none =>
        rw [hl] at hin
        refine explained_of_inside hk (r := .ok ()) (fun v _ hv => by rw [hlast v hv, effectLast_eq, hl]) ?_
        rw [hin]
        exact .nil
      | some l =>
        rw [hl] at hin
        obtain ⟨r, hwalk, hblames⟩ := hls l (List.mem_of_getLast? hl) name
        refine explained_of_inside hk (r := r) (fun v hv hv' => ?_) ?_
        · rw [hlast v hv', effectLast_eq, hl]
          exact hwalk v hv (hv'.trans hty)
        · rw [hin, Option.map_some, Option.toList_some, List.flatMap_singleton]
          exact hblames.within ⟨d, key, several ls⟩ none
    | none =>
      refine explained_of_refuses (by rw [inside, helements, hrecord]) ?_ (.several rfl hrecord helements)
      intro v hv hv'
      rw [effect_several, shaped_of_no_record hv' hrecord helements]

/-- **An answer explains its outcome.** A field that takes an answer has one outcome whatever it holds, and the outcome
blames the first visit at the field or inside it that does not take its answer. -/
theorem explained (S : Schema) (tag : Option String) (a : Answer) :
    ∀ d key, d.key? tag = some key → a.Explained S tag d key := by
  induction a using nestedInduction with
  | nothing =>
    intro d key hk
    refine explained_of_inside hk (r := .ok ()) ?_ .nil
    intro v _ _
    rw [effect, Wrapper.assigned, Value.convert_of_isVoid rfl]
    rfl
  | value x =>
    intro d key hk
    exact explained_value x hk
  | nested l ih =>
    intro d key hk
    exact explained_nested hk fun name => Lookup.explained_of_answers (fun key d => ih key d key) name
  | several ls ih =>
    intro d key hk
    exact explained_several hk fun l hl name => Lookup.explained_of_answers (fun key d => ih l hl key d key) name

end Answer

theorem Lookup.explained (S : Schema) (tag : Option String) (l : Lookup) (name : String) : l.Explained S tag name :=
  Lookup.explained_of_answers (fun key d => Answer.explained S tag (l key) d key) name

end

/-! ## The fault of a fill -/

namespace Fault

theorem OfConversion.fieldNames {e : Fault} (h : OfConversion e) : e.fieldNames = [] := by
  induction h with
  | coercion value target => rfl
  | inElement i h ih => exact ih

/-- context around a cause -/
def IsContext : Fault → Prop
  | inField _ _ | inElement _ _ => True
  | _ => False

theorem not_isContext_cause (e : Fault) : ¬e.cause.IsContext := by
  induction e with
  | inField field e ih => exact ih
  | inElement i e ih => exact ih
  | _ => exact id

end Fault

/-- no field is named in the fault of a field itself -/
theorem Asked.Refuses.fieldNames {S : Schema} {x : Asked} {e : Fault} (h : x.Refuses S e) : e.fieldNames = [] := by
  cases h with
  | nested ha hrecord helements => rfl
  | several ha hrecord helements => rfl
  | value ha h =>
    have hw := Holds.own S (.zero S x.decl.ty)
    refine (hw.ofConversion_of_assign (h _ (.own (Value.wellTyped_zero S _)) ?_)).fieldNames
    rw [hw.declared, Value.ty_allocate, Value.ty_zero]

namespace Visit

theorem cause_fault (u : Visit) (e : Fault) : (u.fault e).cause = e.cause := by
  rcases u with ⟨x, around⟩
  induction around with
  | nil => rfl
  | cons y ys ih => rcases y with ⟨y, _ | i⟩ <;> exact ih

theorem fieldNames_fault (u : Visit) (e : Fault) :
    (u.fault e).fieldNames = u.around.map (·.1.decl.name) ++ u.decl.name :: e.fieldNames := by
  rcases u with ⟨x, around⟩
  induction around with
  | nil => rfl
  | cons y ys ih => rcases y with ⟨y, _ | i⟩ <;> exact congrArg (y.decl.name :: ·) ih

end Visit

/-- **A fill fails at the first field that does not take its answer.** On every writable wrapper on a record, by names
or by an annotation, whatever the lookup answers: all fields whose turns end before that field's take their answers, in
whatever contents. That field lies in the record, and lookups were answered to the fields around it; it failed because
lookups were answered to it too, and its type has no record for them, or because the value answered to it cannot be
assigned to its type. The fault names the fields on the way, so at least one, and its cause is that of the field, never
context. -/
theorem Wrapper.fill_first_fault {S : Schema} {w : Wrapper} (hw : Built S w) {name : String} {vs : List Value}
    (hc : w.contents? = some (.record name vs)) (tag : Option String) (l : Lookup) {e : Fault}
    (he : (w.fill S tag l).value.result = .error e) :
    ∃ before u after inner, l.visits S tag name = before ++ u :: after ∧ (∀ x ∈ before, x.Taken S tag) ∧
      u.Lies S tag name l ∧ (∀ x ∈ u.around, x.1.answer.isLookups = true) ∧ u.Refuses S inner ∧ e = u.fault inner ∧
      e.fieldNames = u.around.map (·.1.decl.name) ++ [u.decl.name] ∧ e.cause = inner.cause ∧ ¬e.cause.IsContext := by
  obtain ⟨st, hst, h⟩ := hw.holds
  have hend : st.chainEnd = .record name vs := Option.some.inj (h.contents.symm.trans hc)
  obtain ⟨r, hwalk, hblames⟩ := l.explained S tag name
  rw [h.value_fill (h.resolved_of_chainEnd hend)] at he
  obtain rfl : r = .error e := (hwalk _ (Value.wellTyped_chainEnd hst) (by rw [hend]; rfl)).symm.trans he
  obtain ⟨before, u, after, inner, hvisits, hbefore, hu, rfl⟩ := hblames
  have hlies : u.Lies S tag name l := Lookup.mem_visits.1 (by simp [hvisits])
  refine ⟨before, u, after, inner, hvisits, hbefore, hlies, hlies.isLookups_around, hu, rfl, ?_, u.cause_fault inner,
    Fault.not_isContext_cause _⟩
  rw [u.fieldNames_fault, hu.fieldNames]

/-- an account is filled up to the name of the second of two guests: the fields come in this order, and those in front
took their answers -/
theorem Wrapper.fill_first_fault_account :
    let w := (locate Sample.accounts (Sample.accountOf 7 (Sample.ownerOf "secret" "old") (.nil Sample.byte) [])).value
    let named (name : String) : Lookup := Lookup.ofEntries [("name", .value (.literal name))]
    let unnamed := Lookup.ofEntries [("name", .nested (named ""))]
    let l := Lookup.ofEntries [("owner", .nested (named "Ada")), ("guests", .several [named "Bob", unnamed])]
    let us := l.visits Sample.accounts none "Account"
    let fault := Fault.inField "guests" (.inElement 1 (.inField "name" (.shapeMismatch "name" "name" "a getter")))
    us.map (fun u => (u.around.map (·.1.decl.name), u.decl.name)) =
        [(["owner"], "name"), ([], "owner"), ([], "limit"), (["guests"], "name"), (["guests"], "name"),
          ([], "guests")] ∧
      (w.fill Sample.accounts none l).value.result = .error fault ∧
      ∃ before u after, us = before ++ u :: after ∧ (∀ x ∈ before, x.Taken Sample.accounts none) ∧
        u.around.map (·.1.decl.name) = ["guests"] ∧ u.decl.name = "name" := by
  intro w named unnamed l us fault
  have hresult : (w.fill Sample.accounts none l).value.result = .error fault := by cbv
  have hw : Built Sample.accounts w := .locate (Sample.wellTyped_accountOf 7 "secret" "old" (by simp))
  obtain ⟨before, u, after, inner, hvisits, hbefore, -, -, -, -, hnames, -, -⟩ :=
    fill_first_fault hw rfl none l hresult
  have hsplit : u.around.map (·.1.decl.name) ++ [u.decl.name] = ["guests"] ++ ["name"] := hnames.symm
  obtain ⟨haround, hname⟩ := List.append_inj' hsplit rfl
  exact ⟨by cbv, hresult, before, u, after, hvisits, hbefore, haround, List.singleton_inj.1 hname⟩

end DynAssign
