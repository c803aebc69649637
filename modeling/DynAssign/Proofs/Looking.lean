/-
What looking at a storage does to it.

The steps that assign nothing (`Step.Looks`) read, describe, make a fresh element, enumerate the fields, or do the same
on the wrapper of a field. Every wrapper on the way has its pointers allocated, so the storage may change.

`AllocatesOnce S op` says of an operation on wrappers that it only allocates, and that it does nothing where all that
it allocated is there, whatever else was allocated since. It passes from the wrapper of a field to that of its record
(`Script.allocatesOnce_field`, `Script.allocatesOnce_fieldAt`), so every step that looks has it
(`Script.allocatesOnce_exec`, by induction on the step). Steps in order only allocate then, and none of them has
anything left to do (`Script.execAll_allocates`).

Main statement: `Script.looking_allocates`, on wrappers built on one storage after another and on any wrapper.
-/
import DynAssign.Proofs.Allocation
import DynAssign.Proofs.Steps

namespace DynAssign

/-- the step assigns nothing to the wrapper that it is run on, or to a part of it; a fresh element is no part -/
inductive Step.Looks : Step → Prop where
  | look : Looks .look
  | freshElement (steps : List Step) : Looks (.freshElement steps false)
  | fields (tag : Option String) : Looks (.fields tag)
  | field (tag : Option String) (i : Nat) {steps : List Step} (hsteps : ∀ s ∈ steps, Looks s) :
    Looks (.field tag i steps)
  | fieldAt (path : List Nat) {steps : List Step} (hsteps : ∀ s ∈ steps, Looks s) : Looks (.fieldAt path steps)
  | describe : Looks .describe
  | describeField (name : String) : Looks (.describeField name)
  | read (t : Ty) : Looks (.read t)
  | inspect : Looks .inspect

/-- the operation only allocates, and does nothing to a wrapper on any storage that comes after what it left -/
def AllocatesOnce {α : Type} (S : Schema) (op : Wrapper → Traced (α × Wrapper)) : Prop :=
  ∀ st w, WellTyped S st → Holds S st w → ∃ st', Holds S st' (op w).value.2 ∧ Allocates S st st' ∧
    ∀ later w', Holds S later w' → Allocates S st' later → (op w').value.2 = w'

theorem AllocatesOnce.of_idle {α : Type} {S : Schema} {op : Wrapper → Traced (α × Wrapper)}
    (h : ∀ w, (op w).value.2 = w) : AllocatesOnce S op :=
  fun st w _ hw => ⟨st, (h w).symm ▸ hw, .refl st, fun _ w' _ _ => h w'⟩

/-! ## Fields found by enumeration -/

namespace Wrapper

variable {ds : List FieldDecl} {vs vs' : List Value}

theorem map_decl_fieldsWith (S : Schema) (tag : Option String) (i p : Nat) (hlen : ds.length = vs.length) :
    (fieldsWith S tag i p ds vs).map Field.decl = (visibleFrom i p ds).filterMap fun f => match tag with
      | none => some f
      | some key => (f.tags.lookup key).map fun _ => f := by
  rw [← map_fst_visibleWith hlen, List.filterMap_map, fieldsWith, List.map_filterMap]
  congr 1
  funext fx
  obtain ⟨f, x⟩ := fx
  cases tag with
  | none => rfl
  | some key => simp [Function.comp_def]

theorem decl_fieldsWith (S : Schema) (tag : Option String) (i : Nat) (hlen : ds.length = vs.length)
    (hlen' : ds.length = vs'.length) :
    (fieldsWith S tag 0 0 ds vs)[i]?.map Field.decl = (fieldsWith S tag 0 0 ds vs')[i]?.map Field.decl := by
  rw [← List.getElem?_map, ← List.getElem?_map, map_decl_fieldsWith S tag 0 0 hlen, map_decl_fieldsWith S tag 0 0 hlen']

/-- a wrapped field is on the value at its position, which is visible -/
theorem exists_decl_of_fieldsWith {S : Schema} {tag : Option String} {i : Nat} {f : Field}
    (h : (fieldsWith S tag 0 0 ds vs)[i]? = some f) :
    ∃ x d, f.wrapper = settled S x ∧ ds[f.decl.position]? = some d ∧ vs[f.decl.position]? = some x ∧
      d.visible = true := by
  obtain ⟨x, hmem, hwrap⟩ := wrapper_of_mem_fieldsWith (List.mem_of_getElem? h)
  obtain ⟨p, d, hp, hd, hx, hvisible, -⟩ := exists_decl_of_mem_visibleWith hmem
  rw [Nat.zero_add] at hp
  exact ⟨x, d, hwrap, hp ▸ hd, hp ▸ hx, hvisible⟩

end Wrapper

theorem Value.VisibleSettled.mono {S : Schema} {name : String} {vs vs' : List Value}
    (h : VisibleSettled (S.fields name) vs) (hle : Allocates S (.record name vs) (.record name vs')) :
    VisibleSettled (S.fields name) vs' := by
  obtain ⟨ws, hws, hlen, -, hvs⟩ := hle.of_record
  cases hws
  rw [visibleSettled_iff] at h ⊢
  intro p d v' hd hv' hvisible
  obtain ⟨v, hv⟩ := exists_getElem?_of_length_eq hlen.symm hv'
  exact ((hvs p v v' hv hv').chainEnd (h p d v hd hv hvisible)).1

namespace Holds

variable {S : Schema} {st x : Value} {w : Wrapper} {name : String} {vs : List Value}

theorem allocates_put {α : Type} {op : Wrapper → Traced (α × Wrapper)} (h : Holds S st w)
    (hop : (op w).value.2 = w.put x) (hle : Allocates S st.chainEnd x)
    (hdone : ∀ later w', Holds S later w' → Allocates S x later.chainEnd → (op w').value.2 = w') :
    ∃ st', Holds S st' (op w).value.2 ∧ Allocates S st st' ∧
      ∀ later w', Holds S later w' → Allocates S st' later → (op w').value.2 = w' := by
  have hty := hle.ty_eq.trans h.ty_chainEnd
  refine ⟨st.setChainEnd x, hop ▸ h.put hty, .setChainEnd h.settled hle, ?_⟩
  intro later w' h' hlater
  exact hdone later w' h' (hlater.of_setChainEnd (Value.isPointer_of_ty hty))

theorem descriptor_later {st' : Value} {w' : Wrapper} (h : Holds S st w) (h' : Holds S st' w')
    (hle : Allocates S st st') : w'.descriptor = w.descriptor := by
  rw [h.descriptor, h'.descriptor, hle.ty_eq]

/-- enumeration of a record later on, once the pointers of its fields are allocated -/
theorem fieldsFor_later (h : Holds S st w) (hle : Allocates S (.record name vs) st.chainEnd)
    (hvs : Value.VisibleSettled (S.fields name) vs) (tag : Option String) :
    ∃ vs', st.chainEnd = .record name vs' ∧ Value.VisibleSettled (S.fields name) vs' ∧
      (w.fieldsFor S tag).value = (Wrapper.fieldsWith S tag 0 0 (S.fields name) vs', w) := by
  obtain ⟨vs', hc, -⟩ := hle.of_record
  rw [hc] at hle
  have hsettled := hvs.mono hle
  have hfields := h.fieldsFor hc tag
  dsimp only at hfields
  rw [Value.allocateVisible_of_settled S hsettled, ← hc, h.put_contents] at hfields
  exact ⟨vs', hc, hsettled, hfields⟩

end Holds

namespace Script

variable {S : Schema} {w : Wrapper} {steps : List Step}

theorem allocatesOnce_fields (S : Schema) (tag : Option String) :
    AllocatesOnce S (exec S (.fields tag)) := by
  intro st w hst h
  have hexec (w : Wrapper) : (exec S (.fields tag) w).value.2 = (w.fieldsFor S tag).value.2 := by
    rw [exec]
    rfl
  cases hrec : w.descriptor.isRecord with
  | false =>
    have hsame {w' : Wrapper} (hrec' : w'.descriptor.isRecord = false) : (exec S (.fields tag) w').value.2 = w' := by
      rw [hexec, Holds.fieldsFor_of_not_isRecord hrec']
    refine ⟨st, by rwa [hsame hrec], .refl st, ?_⟩
    intro later w' h' hlater
    exact hsame (by rw [h.descriptor_later h' hlater, hrec])
  | true =>
    obtain ⟨name, hname⟩ := h.isRecord_iff.1 hrec
    obtain ⟨vs, hc⟩ := h.exists_record hname
    have hend := Value.wellTyped_chainEnd hst
    rw [hc] at hend
    refine h.allocates_put ((hexec w).trans (congrArg Prod.snd (h.fieldsFor hc tag))) ?_ ?_
    · rw [hc]
      exact .allocateVisible hend.length_fields
    · intro later w' h' hlater
      obtain ⟨ws, -, -, heq⟩ := h'.fieldsFor_later hlater (Value.visibleSettled_allocateVisible S _ _) tag
      rw [hexec, heq]

/-! ## A step on a field -/

theorem exec_field_of_not_isRecord (h : w.descriptor.isRecord = false) (S : Schema) (tag : Option String) (i : Nat)
    (steps : List Step) : (exec S (.field tag i steps) w).value.2 = w := by
  have hfields := Holds.fieldsFor_of_not_isRecord h S tag
  rw [exec_field_of_none (by rw [hfields]; rfl), hfields]

/-- a step on a field of a record later on, if the steps inside do nothing to what the field holds then -/
theorem exec_field_later {st : Value} {name : String} {vs : List Value} {tag : Option String} {i : Nat}
    (h : Holds S st w) (hlen : (S.fields name).length = vs.length)
    (hle : Allocates S (.record name vs) st.chainEnd) (hvs : Value.VisibleSettled (S.fields name) vs)
    (hidle : ∀ f x x', (Wrapper.fieldsWith S tag 0 0 (S.fields name) vs)[i]? = some f → vs[f.decl.position]? = some x →
      Allocates S x x' → Holds S x' (.settled S x') → (execAll S steps (.settled S x')).value.2 = .settled S x') :
    (exec S (.field tag i steps) w).value.2 = w := by
  obtain ⟨vs', hc, hvs', hfields⟩ := h.fieldsFor_later hle hvs tag
  rw [hc] at hle
  obtain ⟨ws, hws, hlen', -, hall⟩ := hle.of_record
  cases hws
  cases hf' : (Wrapper.fieldsWith S tag 0 0 (S.fields name) vs')[i]? with
  | none => rw [exec_field_of_none (by rw [hfields]; exact hf'), hfields]
  | some f' =>
    -- the same field before, and its value then and now
    have hdecl := Wrapper.decl_fieldsWith S tag i hlen (hlen.trans hlen'.symm)
    rw [hf'] at hdecl
    obtain ⟨f, hf, hsame⟩ := Option.map_eq_some_iff.1 hdecl
    obtain ⟨x, -, -, -, hx, -⟩ := Wrapper.exists_decl_of_fieldsWith hf
    obtain ⟨x', d, hwrap, hd, hx', hvisible⟩ := Wrapper.exists_decl_of_fieldsWith hf'
    have hfield := Holds.of_settled S (Value.visibleSettled_iff.1 hvs' _ d x' hd hx' hvisible)
    have hdone := hidle f x x' hf hx (hall _ x x' hx (hsame ▸ hx')) hfield
    obtain ⟨hlt, hget⟩ := List.getElem?_eq_some_iff.1 hx'
    rw [exec_field_of_some (by rw [hfields]; exact hf'), hfields, hwrap, hdone]
    rw [h.putField hc hfield, ← hget, List.set_getElem_self, ← hc, h.put_contents]

theorem allocatesOnce_field (hsteps : AllocatesOnce S (execAll S steps)) (tag : Option String)
    (i : Nat) : AllocatesOnce S (exec S (.field tag i steps)) := by
  intro st w hst h
  cases hrec : w.descriptor.isRecord with
  | false =>
    refine ⟨st, by rwa [exec_field_of_not_isRecord hrec], .refl st, ?_⟩
    intro later w' h' hlater
    exact exec_field_of_not_isRecord (by rw [h.descriptor_later h' hlater, hrec]) S tag i steps
  | true =>
    obtain ⟨name, hname⟩ := h.isRecord_iff.1 hrec
    obtain ⟨vs, hc⟩ := h.exists_record hname
    have hend := Value.wellTyped_chainEnd hst
    rw [hc] at hend
    -- the fields when they are wrapped
    have hfields := h.fieldsFor hc tag
    have hvs := Value.visibleSettled_allocateVisible S (S.fields name) vs
    have hle := Allocates.allocateVisible hend.length_fields
    have hws := hle.wellTyped hend
    rw [← hc] at hle
    generalize (Value.allocateVisible S (S.fields name) vs).value = ws at hfields hvs hle hws
    cases hf : (Wrapper.fieldsWith S tag 0 0 (S.fields name) ws)[i]? with
    | none =>
      refine h.allocates_put (x := .record name ws) ?_ hle ?_
      · rw [exec_field_of_none (by rw [hfields]; exact hf), hfields]
      · intro later w' h' hlater
        refine exec_field_later h' hws.length_fields hlater hvs ?_
        intro f x x' hf'
        rw [hf] at hf'
        cases hf'
    | some f =>
      obtain ⟨x, d, hwrap, hd, hx, hvisible⟩ := Wrapper.exists_decl_of_fieldsWith hf
      have hsettled := Value.visibleSettled_iff.1 hvs _ d x hd hx hvisible
      have htyped := (WellTyped.record_iff.1 hws).2 x (List.mem_of_getElem? hx)
      obtain ⟨z, hz, hlez, hdone⟩ := hsteps x _ htyped (.of_settled S hsettled)
      rw [← hwrap] at hz
      have hset : Allocates S (.record name ws) (.record name (ws.set f.decl.position z)) :=
        .set_field hd hvisible hx hlez
      refine h.allocates_put ?_ (hle.trans hset) ?_
      · have hput := (h.put (x := .record name ws) hname.symm).putField (Value.chainEnd_setChainEnd st rfl)
          (f := { f with wrapper := (execAll S steps f.wrapper).value.2 }) hz
        rw [exec_field_of_some (by rw [hfields]; exact hf), hfields, hput, Wrapper.put_put w rfl]
      · intro later w' h' hlater
        have hlen := (hset.wellTyped hws).length_fields
        refine exec_field_later h' hlen hlater (hvs.mono hset) ?_
        intro f' z' x' hf' hz' hlex hfield
        -- the field of that number is the same as before, so z' is what the steps left of it
        have hdecl := Wrapper.decl_fieldsWith S tag i hws.length_fields hlen
        rw [hf, hf', Option.map_some, Option.map_some, Option.some.injEq] at hdecl
        rw [← hdecl, List.getElem?_set_self (List.getElem?_eq_some_iff.1 hx).1] at hz'
        obtain rfl := Option.some.inj hz'
        exact hdone x' _ hfield hlex

/-! ## A step on the field at a path -/

/-- what a step on the field at a path leaves, by what the descent finds -/
theorem exec_fieldAt {st : Value} (h : Holds S st w) (i : Nat) (path : List Nat) (steps : List Step) :
    (exec S (.fieldAt (i :: path) steps) w).value.2 = match (st.chainEnd.descend S i path).value with
      | (.error _, v) => w.put v
      | (.ok x, v) => (w.put v).putFieldAt S (i :: path) (execAll S steps (.settled S x)).value.2 := by
  have hvalue := h.value_fieldAt i path
  cases hr : (st.chainEnd.descend S i path).value with
  | mk r v =>
    rw [hr] at hvalue
    cases r with
    | error e =>
      have hfault : (w.fieldAt S (i :: path)).value.1 = .error e := by rw [hvalue]; rfl
      rw [exec_fieldAt_of_error hfault, hvalue]
    | ok x =>
      have hfound : (w.fieldAt S (i :: path)).value.1 = .ok (.settled S x) := by rw [hvalue]; rfl
      rw [exec_fieldAt_of_ok hfound, hvalue]

/-- a step on the field at a path later on, if the steps inside do nothing to what the path leads to then -/
theorem exec_fieldAt_later {st : Value} {i : Nat} {path : List Nat} {r : Option Value} (h : Holds S st w)
    (hleads : Leads S st.chainEnd i path r)
    (hidle : ∀ x, r = some x → (execAll S steps (.settled S x)).value.2 = .settled S x) :
    (exec S (.fieldAt (i :: path) steps) w).value.2 = w := by
  obtain ⟨hsame, hfound⟩ := hleads.descend
  rw [exec_fieldAt h]
  cases hr : (st.chainEnd.descend S i path).value with
  | mk found v =>
    rw [hr] at hsame hfound
    subst hsame
    cases found with
    | error e => exact h.put_contents
    | ok x =>
      subst hfound
      have hsub := Holds.of_settled S hleads.isSettled
      simp only [hidle x rfl, h.put_contents]
      rw [h.putFieldAt hsub, hleads.putAt_self, h.put_contents]

theorem exec_fieldAt_nil {st : Value} (h : Holds S st w) (steps : List Step) :
    (exec S (.fieldAt [] steps) w).value.2 = w := by
  have hfault : (w.fieldAt S []).value = (.error (.invalidPath "empty index path"), w) := by
    rw [Wrapper.fieldAt, h.isUnbound]
    rfl
  rw [exec_fieldAt_of_error (by rw [hfault]), hfault]

theorem allocatesOnce_fieldAt (hsteps : AllocatesOnce S (execAll S steps)) (path : List Nat) :
    AllocatesOnce S (exec S (.fieldAt path steps)) := by
  intro st w hst h
  cases path with
  | nil =>
    refine ⟨st, by rwa [exec_fieldAt_nil h], .refl st, ?_⟩
    intro later w' h' _
    exact exec_fieldAt_nil h' steps
  | cons i path =>
    have hend := Value.wellTyped_chainEnd hst
    obtain ⟨hle, hleads⟩ := Value.leads_descend hend i path
    have hexec := exec_fieldAt h i path steps
    cases hr : (st.chainEnd.descend S i path).value with
    | mk found v =>
      rw [hr] at hle hleads hexec
      have hv := hle.wellTyped hend
      cases found with
      | error e =>
        refine h.allocates_put hexec hle ?_
        intro later w' h' hlater
        obtain ⟨r, hleads', hrel⟩ := hleads.mono hv hlater
        cases hrel
        exact exec_fieldAt_later h' hleads' nofun
      | ok x =>
        have htyped := (Value.descend_found hend (congrArg Prod.fst hr)).1
        obtain ⟨z, hz, hlez, hdone⟩ := hsteps x _ htyped (.of_settled S hleads.isSettled)
        obtain ⟨hput, hleads'⟩ := hleads.putAt hv hlez
        refine h.allocates_put ?_ (hle.trans hput) ?_
        · have hty := hle.ty_eq.trans h.ty_chainEnd
          have hpointer := Value.isPointer_of_ty hty
          have hback := (h.put hty).putFieldAt hz (i :: path)
          rw [Value.chainEnd_setChainEnd st hpointer, Wrapper.put_put w hpointer] at hback
          exact hexec.trans hback
        · intro later w' h' hlater
          obtain ⟨r, hleads'', hrel⟩ := hleads'.mono (hput.wellTyped hv) hlater
          refine exec_fieldAt_later h' hleads'' ?_
          rintro x' rfl
          cases hrel with
          | some hlex => exact hdone x' _ (.of_settled S hleads''.isSettled) hlex

/-! ## Steps -/

/-- steps in order only allocate if each of them does, and then none of them has anything left to do -/
theorem execAll_allocates {st : Value} (hsteps : ∀ s ∈ steps, AllocatesOnce S (exec S s))
    (hst : WellTyped S st) (h : Holds S st w) :
    ∃ st', Holds S st' (execAll S steps w).value.2 ∧ Allocates S st st' ∧
      ∀ s ∈ steps, ∀ later w', Holds S later w' → Allocates S st' later → (exec S s w').value.2 = w' := by
  induction steps generalizing st w with
  | nil => exact ⟨st, h, .refl st, by simp⟩
  | cons s ss ih =>
    rw [List.forall_mem_cons] at hsteps
    obtain ⟨st', h', hle, hdone⟩ := hsteps.1 st w hst h
    obtain ⟨st'', h'', hle', hdone'⟩ := ih hsteps.2 (hle.wellTyped hst) h'
    refine ⟨st'', h'', hle.trans hle', ?_⟩
    rw [List.forall_mem_cons]
    exact ⟨fun later w' hw' hlater => hdone later w' hw' (hle'.trans hlater), hdone'⟩

theorem execAll_of_idle (hidle : ∀ s ∈ steps, (exec S s w).value.2 = w) : (execAll S steps w).value.2 = w := by
  induction steps with
  | nil => rfl
  | cons s ss ih =>
    rw [List.forall_mem_cons] at hidle
    have hrest := ih hidle.2
    rw [← hidle.1] at hrest
    exact hrest.trans hidle.1

theorem allocatesOnce_execAll (hsteps : ∀ s ∈ steps, AllocatesOnce S (exec S s)) :
    AllocatesOnce S (execAll S steps) := by
  intro st w hst h
  obtain ⟨st', h', hle, hdone⟩ := execAll_allocates hsteps hst h
  refine ⟨st', h', hle, ?_⟩
  intro later w' hw' hlater
  exact execAll_of_idle fun s hs => hdone s hs later w' hw' hlater

/-- **A step that looks only allocates**, and does nothing once that is there. By induction on the step: the steps
inside look at a field, and what they allocate there is allocated in the record. -/
theorem allocatesOnce_exec {s : Step} (hs : s.Looks) : AllocatesOnce S (exec S s) := by
  induction hs with
  | fields tag => exact allocatesOnce_fields S tag
  | field tag i hsteps ih => exact allocatesOnce_field (allocatesOnce_execAll ih) tag i
  | fieldAt path hsteps ih => exact allocatesOnce_fieldAt (allocatesOnce_execAll ih) path
  | freshElement steps =>
    refine .of_idle fun w => ?_
    rw [exec, Traced.value_bind]
    cases (w.freshElement S).run.value <;> rfl
  | _ => exact .of_idle fun w => rfl

end Script

/-! ## Sessions -/

/-- how a wrapper is bound to a storage, and the steps to run on it -/
structure Session where
  mode : Script.Mode
  steps : List Step

namespace Session

/-- the wrapper is writable, and the steps look -/
structure Looks (s : Session) : Prop where
  mode : s.mode = .located ∨ s.mode = .owned
  steps : ∀ step ∈ s.steps, step.Looks

/-- what a session leaves of a storage -/
def after (S : Schema) (s : Session) (v : Value) : Value := (Script.run S s.mode v s.steps).value.2

/-- what sessions leave of a storage, one after another -/
def afterAll (S : Schema) (sessions : List Session) (v : Value) : Value := sessions.foldl (fun v s => s.after S v) v

variable {S : Schema} {v : Value}

theorem Looks.holds {s : Session} (hs : s.Looks) (S : Schema) (v : Value) :
    Holds S (v.allocate S).value (s.mode.wrap S v).value := by
  rcases hs.mode with h | h
  · rw [h]
    exact .locate S v
  · rw [h]
    exact .own S v

/-- what the steps of a session leave of the wrapper's storage, the session leaves -/
theorem after_of_holds {s : Session} {st : Value} {w : Wrapper} (h : Holds S st w)
    (heq : (Script.execAll S s.steps (s.mode.wrap S v).value).value.2 = w) : s.after S v = st := by
  have hstorage : s.after S v =
      (Script.execAll S s.steps (s.mode.wrap S v).value).value.2.storage?.getD v := rfl
  rw [hstorage, heq, Wrapper.storage?, h.storage, Option.getD_some]

/-- a session that looks only allocates, and does nothing to any storage that comes after -/
theorem Looks.allocates {s : Session} (hs : s.Looks) (hv : WellTyped S v) :
    Allocates S v (s.after S v) ∧ ∀ later, Allocates S (s.after S v) later → s.after S later = later := by
  have hsteps := Script.allocatesOnce_execAll (S := S) fun step h => Script.allocatesOnce_exec (hs.steps step h)
  obtain ⟨st, h, hle, hdone⟩ := hsteps _ _ (Value.wellTyped_allocate hv) (hs.holds S v)
  rw [after_of_holds h rfl]
  refine ⟨(Allocates.allocate S v).trans hle, ?_⟩
  intro later hlater
  have hsettled := (hlater.chainEnd h.settled).1
  have h' := hs.holds S later
  rw [hsettled.allocate S] at h'
  exact after_of_holds h' (hdone later _ h' hlater)

/-- sessions that look only allocate, and then none of them has anything left to do -/
theorem allocates_afterAll {sessions : List Session} (hsessions : ∀ s ∈ sessions, s.Looks) (hv : WellTyped S v) :
    Allocates S v (afterAll S sessions v) ∧
      ∀ s ∈ sessions, ∀ later, Allocates S (afterAll S sessions v) later → s.after S later = later := by
  induction sessions generalizing v with
  | nil => exact ⟨.refl v, by simp⟩
  | cons s ss ih =>
    rw [List.forall_mem_cons] at hsessions
    obtain ⟨hle, hdone⟩ := hsessions.1.allocates hv
    obtain ⟨hrest, hdone'⟩ := ih hsessions.2 (hle.wellTyped hv)
    refine ⟨hle.trans hrest, ?_⟩
    rw [List.forall_mem_cons]
    exact ⟨fun later hlater => hdone later (hrest.trans hlater), hdone'⟩

end Session

/-- **Looking never overwrites.** Wrappers are built on a storage one after another, and on each of them steps run that
look: at the end the storage is as before, but for nil pointers that were allocated, and any of these sessions once
more changes nothing. The same holds of such steps on any writable wrapper there is, and the storage behind it: any of
these steps once more leaves the wrapper as it is. -/
theorem Script.looking_allocates {S : Schema} {v : Value} (hv : WellTyped S v) {sessions : List Session}
    (hsessions : ∀ s ∈ sessions, s.Looks) :
    let v' := Session.afterAll S sessions v
    Allocates S v v' ∧ (∀ s ∈ sessions, s.after S v' = v') ∧
      ∀ w steps, Built S w → (∀ s ∈ steps, Step.Looks s) →
        let w' := (execAll S steps w).value.2
        ∃ st st', w.storage? = some st ∧ w'.storage? = some st' ∧ Allocates S st st' ∧
          ∀ s ∈ steps, (exec S s w').value.2 = w' := by
  intro v'
  obtain ⟨hle, hdone⟩ := Session.allocates_afterAll hsessions hv
  refine ⟨hle, fun s hs => hdone s hs v' (.refl v'), ?_⟩
  intro w steps hw hsteps w'
  obtain ⟨st, hst, h⟩ := hw.holds
  obtain ⟨st', h', hle', hidle⟩ := execAll_allocates (fun s hs => allocatesOnce_exec (hsteps s hs)) hst h
  exact ⟨st, st', h.storage, h'.storage, hle', fun s hs => hidle s hs st' w' h' (.refl st')⟩

/-- A node whose weight is nil: a path that leads off allocates nothing. Enumeration of the fields of one annotation
allocates the weight, which does not carry it, and so does the path to the weight; the nil pointer in the list of
children stays. -/
theorem Script.looking_allocates_node :
    let node (weight : Value) : Value := .record "Node" [.scalar (.string "a"), weight, Sample.rows [[1], []],
      .list (.option (.record "Node")) [.nil (.record "Node")], .scalar (.bool true)]
    let off : Session := ⟨.located, [.fieldAt [7] [.look]]⟩
    let enumeration : Session := ⟨.owned, [.fields (some "xml"), .field (some "xml") 0 [.freshElement [.reset] false]]⟩
    let before := node (.nil (.box (.scalar (.int ⟨false, .w64⟩))))
    let after := node (.ptr (.box (.scalar (.ofInt ⟨false, .w64⟩ 0))))
    let weight : Step := .fieldAt [1] [.look]
    let w' := (execAll Sample.schema [weight] (Wrapper.locate Sample.schema before).value).value.2
    off.after Sample.schema before = before ∧ Session.afterAll Sample.schema [off, enumeration] before = after ∧
      Allocates Sample.schema before after ∧ enumeration.after Sample.schema after = after ∧
      w'.storage? = some after ∧ (exec Sample.schema weight w').value.2 = w' := by
  intro node off enumeration before after weight w'
  have hv : WellTyped Sample.schema before := by
    rw [WellTyped.record_iff]
    refine ⟨rfl, ?_⟩
    simp only [List.forall_mem_cons]
    refine ⟨.scalar _, .nil _, Sample.wellTyped_rows _, ?_, .scalar _, by simp⟩
    exact WellTyped.list_iff.2 (by simp [Value.ty, WellTyped.nil])
  have hoff : off.Looks := ⟨.inl rfl, by simpa [off] using .fieldAt [7] (by simpa using .look)⟩
  have henumeration : enumeration.Looks := by
    refine ⟨.inr rfl, ?_⟩
    simp only [enumeration, List.forall_mem_cons]
    exact ⟨.fields _, .field _ 0 (by simpa using .freshElement _), by simp⟩
  have hsessions : ∀ s ∈ [off, enumeration], s.Looks := by simp [hoff, henumeration]
  have hfirst : off.after Sample.schema before = before := by
    have h := hoff.holds Sample.schema before
    have hidle : (exec Sample.schema (.fieldAt [7] [.look]) _).value.2 = (off.mode.wrap Sample.schema before).value :=
      exec_fieldAt_later h (.off [] (by cbv)) (by simp)
    exact Session.after_of_holds h (execAll_of_idle (by simpa [off] using hidle))
  have hsecond : enumeration.after Sample.schema before = after := by cbv
  have hafter : Session.afterAll Sample.schema [off, enumeration] before = after := by
    simp only [Session.afterAll, List.foldl_cons, List.foldl_nil, hfirst, hsecond]
  have hweight : weight.Looks := .fieldAt [1] (by simpa using .look)
  have hstorage : w'.storage? = some after := by cbv
  obtain ⟨hle, hagain, hwrappers⟩ := looking_allocates hv hsessions
  obtain ⟨-, -, -, -, -, hidle⟩ := hwrappers _ [weight] (.locate hv) (by simpa using hweight)
  rw [hafter] at hle hagain
  exact ⟨hfirst, hafter, hle, hagain enumeration (by simp), hstorage, hidle weight (by simp)⟩

end DynAssign
