/-
What a fill leaves alone.

Two kinds of fields take no part in a fill: with an annotation asked for, the visible fields without it, and in every
case the hidden ones.

- A visible field without the annotation holds what it held before, except that the nil pointers on its chain are
  allocated: all visible fields are wrapped, and the annotation is looked for in the wrapped ones
  (`Wrapper.fill_allocates_untagged`).
- A hidden field holds what it held before. `SubFill` lists the fills that a fill consists of: itself, those of the
  records in its fields that are filled in place, and those of the elements that it builds, each from a zero record.
  Each of them is what the rule of its lookup leaves (`SubFill.eq_recordRule`), so none changes a hidden field of its
  record, and elements have theirs at zero (`Wrapper.fill_keeps_hidden`).
-/
import DynAssign.Proofs.Order

namespace DynAssign

/-! ## A record with hidden fields for examples -/

namespace Sample

/-- a hidden token, and a name -/
def owner : RecordDecl := ⟨"Owner", [
  ⟨"token", .scalar .string, [], false⟩,
  ⟨"name", .scalar .string, [("env", "NAME")], true⟩]⟩

/-- a hidden serial number, an owner behind two pointers, a limit that may be nil, and other owners -/
def account : RecordDecl := ⟨"Account", [
  ⟨"serial", byte, [], false⟩,
  ⟨"owner", .option (.box (.record "Owner")), [("env", "OWNER")], true⟩,
  ⟨"limit", .option byte, [], true⟩,
  ⟨"guests", .slice (.record "Owner"), [("env", "GUESTS")], true⟩]⟩

def accounts : Schema := .ofDecls [owner, account] (by decide) (by decide)

def ownerOf (token name : String) : Value := .record "Owner" [.scalar (.string token), .scalar (.string name)]

def accountFields (serial : Int) (owner limit : Value) (guests : List Value) : List Value :=
  [.scalar (.ofInt ⟨false, .w8⟩ serial), .ptr (.box owner), limit, .list (.record "Owner") guests]

def accountOf (serial : Int) (owner limit : Value) (guests : List Value) : Value :=
  .record "Account" (accountFields serial owner limit guests)

theorem wellTyped_ownerOf (token name : String) : WellTyped accounts (ownerOf token name) := by
  rw [ownerOf, WellTyped.record_iff]
  refine ⟨rfl, ?_⟩
  simp only [List.forall_mem_cons]
  exact ⟨.scalar _, .scalar _, by simp⟩

theorem wellTyped_accountOf (serial : Int) (token name : String) {guests : List Value}
    (hguests : ∀ v ∈ guests, v.ty = .record "Owner" ∧ WellTyped accounts v) :
    WellTyped accounts (accountOf serial (ownerOf token name) (.nil byte) guests) := by
  rw [accountOf, WellTyped.record_iff]
  refine ⟨rfl, ?_⟩
  simp only [accountFields, List.forall_mem_cons]
  refine ⟨.scalar _, .ptr (.box (wellTyped_ownerOf token name)), .nil _, ?_, by simp⟩
  exact WellTyped.list_iff.2 hguests

end Sample

section

variable {S : Schema} {tag : Option String}

theorem Value.allocate_eq_self_iff (v : Value) : (v.allocate S).value = v ↔ v.IsSettled := by
  constructor
  · intro h
    have hsettled := isSettled_allocate S v
    rwa [h] at hsettled
  · intro h
    rw [h.allocate S]
    rfl

end

/-! ## Fields without the annotation -/

/-- **A visible field without the annotation is allocated, and otherwise left alone.** After a fill by an annotation,
whether it succeeds or fails, such a field holds what it held before with the nil pointers on its chain allocated. So it
is unchanged iff no pointer on its chain was nil. -/
theorem Wrapper.fill_allocates_untagged {S : Schema} {w : Wrapper} (hw : Built S w) {name : String} {vs : List Value}
    (hc : w.contents? = some (.record name vs)) (tagKey : String) (l : Lookup) :
    ∃ ws, (w.fill S (some tagKey) l).value.wrapper.contents? = some (.record name ws) ∧
      ∀ (p : Nat) (d : FieldDecl) (v : Value), (S.fields name)[p]? = some d → d.visible = true →
        d.tags.lookup tagKey = none → vs[p]? = some v →
        ws[p]? = some (v.allocate S).value ∧ (ws[p]? = some v ↔ v.IsSettled) := by
  obtain ⟨st, hst, h⟩ := hw.holds
  have hend : st.chainEnd = .record name vs := Option.some.inj (h.contents.symm.trans hc)
  obtain ⟨n, ws, hcontents, hturns⟩ := h.filledInOrder hst hend (some tagKey) l
  refine ⟨ws, hcontents, ?_⟩
  intro p d v hd hvisible htag hv
  have hno : d.key? (some tagKey) = none := by
    unfold FieldDecl.key?
    rw [if_pos hvisible]
    exact htag
  have hkept := hturns.kept p d v hd hv (.inl hno)
  rw [FieldDecl.passed, if_pos hvisible] at hkept
  refine ⟨hkept, ?_⟩
  rw [hkept, Option.some.injEq]
  exact v.allocate_eq_self_iff

/-- an account after a fill by an annotation that its limit does not carry: the owner's name was set, and the limit,
which was nil, was allocated -/
theorem Wrapper.fill_allocates_untagged_limit :
    let w := (locate Sample.accounts (Sample.accountOf 7 (Sample.ownerOf "t" "old") (.nil Sample.byte) [])).value
    let l := Lookup.ofEntries [("OWNER", .nested (Lookup.ofEntries [("NAME", .value (.literal "new"))]))]
    let limit := Value.ptr (.scalar (.ofInt ⟨false, .w8⟩ 0))
    (w.fill Sample.accounts (some "env") l).value.result = .ok () ∧
      ∃ ws, (w.fill Sample.accounts (some "env") l).value.wrapper.contents? = some (.record "Account" ws) ∧
        ws[2]? = some limit ∧ ws[2]? ≠ some (.nil Sample.byte) := by
  intro w l limit
  have hw : Built Sample.accounts w := .locate (Sample.wellTyped_accountOf 7 "t" "old" (by simp))
  obtain ⟨ws, hcontents, hkept⟩ := fill_allocates_untagged hw rfl "env" l
  obtain ⟨hlimit, hsame⟩ := hkept 2 ⟨"limit", .option Sample.byte, [], true⟩ (.nil Sample.byte) rfl rfl rfl rfl
  have hfresh : ((Value.nil Sample.byte).allocate Sample.accounts).value = limit := by cbv
  refine ⟨by cbv, ws, hcontents, by rw [hlimit, hfresh], ?_⟩
  intro hnil
  exact absurd (hsame.1 hnil) (by decide)

/-! ## Hidden fields -/

/-- two values of one record that agree in every hidden field -/
def SameHidden (S : Schema) (u u' : Value) : Prop :=
  ∃ name vs ws, u = .record name vs ∧ u' = .record name ws ∧
    ∀ (p : Nat) (d : FieldDecl), (S.fields name)[p]? = some d → d.visible = false → ws[p]? = vs[p]?

/-- a record whose hidden fields hold the zero values of their types -/
def HiddenZero (S : Schema) (u : Value) : Prop :=
  ∃ name vs, u = .record name vs ∧
    ∀ (p : Nat) (d : FieldDecl), (S.fields name)[p]? = some d → d.visible = false → vs[p]? = some (.zero S d.ty)

theorem SameHidden.hiddenZero {S : Schema} {t : Ty} {u : Value} (h : SameHidden S (.zero S t) u) : HiddenZero S u := by
  obtain ⟨name, vs, ws, hzero, hu, hsame⟩ := h
  refine ⟨name, ws, hu, ?_⟩
  intro p d hd hhidden
  have ht : t = .record name := by
    rw [← Value.ty_zero S t, hzero]
    rfl
  rw [ht, Value.zero, Value.record.injEq] at hzero
  rw [hsame p d hd hhidden, ← hzero.2]
  simp [hd]

namespace Answer

/-- an answer of lookups -/
def isLookups : Answer → Bool
  | nested _ | several _ => true
  | nothing | value _ => false

/-- the lookup that an answer fills a record from: the nested one, or the last of several -/
def inPlace? : Answer → Option Lookup
  | nested l => some l
  | several ls => ls.getLast?
  | nothing | value _ => none

/-- the lookups that an answer builds elements from, one element each -/
def builders : Answer → List Lookup
  | nested l => [l]
  | several ls => ls
  | nothing | value _ => []

end Answer

/-- A run over a record with these values comes to the field at a position: none of the fields in front of it fails on
its answer. -/
def Arrives (S : Schema) (tag : Option String) (l : Lookup) (name : String) (vs : List Value) (p : Nat) : Prop :=
  ∀ q d key v, q < p → (S.fields name)[q]? = some d → d.key? tag = some key → vs[q]? = some v →
    ((l key).alone S tag d key v).1 = .ok ()

/-- The fills that a fill consists of. `SubFill S tag l v v' m u u'` says: while contents v became v' by a fill from
l, a record u became u' by a fill from m. -/
inductive SubFill (S : Schema) (tag : Option String) : Lookup → Value → Value → Lookup → Value → Value → Prop where
  | itself (l : Lookup) (v v' : Value) : SubFill S tag l v v' l v v'
  /-- inside a field whose record is filled in place -/
  | inField {l m m' : Lookup} {name inner key : String} {vs ws : List Value} {p : Nat} {d : FieldDecl}
    {x x' u u' : Value} (hd : (S.fields name)[p]? = some d) (hkey : d.key? tag = some key)
    (harrives : Arrives S tag l name vs p) (hx : vs[p]? = some x) (hx' : ws[p]? = some x')
    (hanswer : (l key).inPlace? = some m) (hty : d.ty.resolved = .record inner)
    (h : SubFill S tag m (x.allocate S).value.chainEnd x'.chainEnd m' u u') :
    SubFill S tag l (.record name vs) (.record name ws) m' u u'
  /-- inside an element that was built for a list of records, starting from a zero element -/
  | inElement {l m m' : Lookup} {name inner key : String} {vs ws ys : List Value} {p i : Nat} {d : FieldDecl} {e : Ty}
    {x x' y u u' : Value} (hd : (S.fields name)[p]? = some d) (hkey : d.key? tag = some key)
    (harrives : Arrives S tag l name vs p) (hx : vs[p]? = some x) (hx' : ws[p]? = some x')
    (hanswer : (l key).builders[i]? = some m) (hty : d.ty.resolved = .slice e) (hinner : e.resolved = .record inner)
    (hlist : x'.chainEnd = .list e ys) (hy : ys[i]? = some y)
    (h : SubFill S tag m (.zero S e.resolved) y.chainEnd m' u u') :
    SubFill S tag l (.record name vs) (.record name ws) m' u u'

section

variable {S : Schema} {tag : Option String}

/-- an answer that fills in place runs the rule of its lookup over a record -/
theorem Answer.effect_of_inPlace? {a : Answer} {m : Lookup} (ha : a.inPlace? = some m) (key name : String) {v : Value}
    {inner : String} (hty : v.ty = .record inner) :
    a.effect S tag key name v = recordRule S tag (m.rule S tag) v := by
  cases a with
  | nested l =>
    obtain rfl := Option.some.inj ha
    rw [effect_nested, shaped_of_record hty]
  | several ls =>
    have hlast : ls.getLast? = some m := ha
    rw [effect_several, shaped_of_record hty, effectLast_eq, hlast]
  | nothing => cases ha
  | value x => cases ha

/-- the elements that were built for a list, up to the first that could not be -/
theorem Answer.eq_of_mem_effectEach {ls : List Lookup} {e : Ty} {i j : Nat} {m : Lookup} {y : Value}
    (hm : ls[j]? = some m) (hy : (effectEach S tag ls i e).2[j]? = some y) :
    y = .layered e (recordRule S tag (m.rule S tag) (.zero S e.resolved)).2 := by
  induction ls generalizing i j with
  | nil => cases hm
  | cons l ls ih =>
    rw [effectEach_cons] at hy
    cases hbuilt : builtElement S tag (l.rule S tag) e with
    | error err =>
      rw [hbuilt] at hy
      simp at hy
    | ok x =>
      rw [hbuilt] at hy
      cases j with
      | zero =>
        obtain rfl : l = m := by simpa using hm
        obtain rfl : x = y := by simpa using hy
        exact eq_of_builtElement hbuilt
      | succ j => exact ih (by simpa using hm) (by simpa using hy)

/-- an answer that builds elements leaves a list of them, each made by the rule of its lookup from a zero record -/
theorem Answer.eq_of_builders {a : Answer} {m : Lookup} {i : Nat} (ha : a.builders[i]? = some m) (key name : String)
    {v y : Value} {e : Ty} {ys : List Value} {inner : String} (hty : v.ty = .slice e) (he : e.resolved = .record inner)
    (hlist : (a.effect S tag key name v).2 = .list e ys) (hy : ys[i]? = some y) :
    y = .layered e (recordRule S tag (m.rule S tag) (.zero S e.resolved)).2 := by
  have hrec : (S.descriptor e).isRecord = true := (S.isRecord_iff e).2 ⟨inner, he⟩
  cases a with
  | nothing => cases ha
  | value x => cases ha
  | nested l =>
    rw [effect_nested, shaped_of_records hty hrec] at hlist
    cases hlist
    cases hbuilt : builtElement S tag (Lookup.rule S tag l) e with
    | error err =>
      rw [hbuilt] at hy
      simp [onlyElement] at hy
    | ok x =>
      rw [hbuilt] at hy
      cases i with
      | zero =>
        obtain rfl : l = m := by simpa [builders] using ha
        obtain rfl : x = y := by simpa [onlyElement] using hy
        exact eq_of_builtElement hbuilt
      | succ i => simp [builders] at ha
  | several ls =>
    rw [effect_several, shaped_of_records hty hrec] at hlist
    cases hlist
    exact eq_of_mem_effectEach ha hy

theorem Answer.length_effectEach_le (S : Schema) (tag : Option String) (ls : List Lookup) (i : Nat) (e : Ty) :
    (effectEach S tag ls i e).2.length ≤ ls.length := by
  induction ls generalizing i with
  | nil => exact Nat.le_refl 0
  | cons l ls ih =>
    rw [effectEach_cons]
    cases builtElement S tag (l.rule S tag) e with
    | error err => exact Nat.zero_le _
    | ok x => exact Nat.succ_le_succ (ih (i + 1))

theorem Answer.length_le_builders {a : Answer} (ha : a.isLookups = true) (key name : String) {v : Value} {e : Ty}
    {ys : List Value} {inner : String} (hty : v.ty = .slice e) (he : e.resolved = .record inner)
    (hlist : (a.effect S tag key name v).2 = .list e ys) : ys.length ≤ a.builders.length := by
  have hrec : (S.descriptor e).isRecord = true := (S.isRecord_iff e).2 ⟨inner, he⟩
  cases a with
  | nothing => cases ha
  | value x => cases ha
  | nested l =>
    rw [effect_nested, shaped_of_records hty hrec] at hlist
    cases hlist
    cases builtElement S tag (Lookup.rule S tag l) e <;> simp [onlyElement, builders]
  | several ls =>
    rw [effect_several, shaped_of_records hty hrec] at hlist
    cases hlist
    exact length_effectEach_le S tag ls 0 e

theorem Turns.le_of_arrives {l : Lookup} {name : String} {vs : List Value} {n p : Nat} {after : Walked} {d : FieldDecl}
    (h : Turns tag (fun d key => (l key).alone S tag d key) (fun d => d.passed S) (S.fields name) vs n after)
    (harrives : Arrives S tag l name vs p) (hd : (S.fields name)[p]? = some d) : p ≤ n := by
  rcases h.ending with ⟨rfl, -⟩ | ⟨d', key', v', err, hd', hkey', hv', hturn, -⟩
  · exact Nat.le_of_lt (List.getElem?_eq_some_iff.1 hd).1
  · -- the run ended at a field in front, which does not fail
    by_contra hlt
    have hok := harrives n d' key' v' (by omega) hd' hkey' hv'
    rw [hturn] at hok
    cases hok

/-- a field that the run comes to holds what its answer makes of it -/
theorem Turns.of_arrives {l : Lookup} {name key : String} {vs : List Value} {n p : Nat} {after : Walked}
    {d : FieldDecl} {x : Value}
    (h : Turns tag (fun d key => (l key).alone S tag d key) (fun d => d.passed S) (S.fields name) vs n after)
    (harrives : Arrives S tag l name vs p) (hd : (S.fields name)[p]? = some d) (hkey : d.key? tag = some key)
    (hx : vs[p]? = some x) :
    after.values[p]? = some (l.rule S tag key d.name (x.allocate S).value).2 := by
  have hreached := h.reached hd hkey hx (h.le_of_arrives harrives hd)
  rw [Answer.alone_eq l hkey, FieldDecl.passed, if_pos (Wrapper.visible_of_key? hkey)] at hreached
  exact hreached

/-- In a well-typed record, what lies at the end of a field's chain after the run is what the answer makes of what lay
there before, the pointers allocated. -/
theorem chainEnd_of_arrives {l : Lookup} {name key : String} {vs ws : List Value} {p : Nat} {d : FieldDecl}
    {x x' : Value} (hv : WellTyped S (.record name vs))
    (hws : .record name ws = (recordRule S tag (l.rule S tag) (.record name vs)).2)
    (harrives : Arrives S tag l name vs p) (hd : (S.fields name)[p]? = some d) (hkey : d.key? tag = some key)
    (hx : vs[p]? = some x) (hx' : ws[p]? = some x') :
    WellTyped S (x.allocate S).value.chainEnd ∧ (x.allocate S).value.chainEnd.ty = d.ty.resolved ∧
      x'.chainEnd = ((l key).effect S tag key d.name (x.allocate S).value.chainEnd).2 := by
  obtain ⟨n, hturns⟩ := turns_walkRecord S tag l hv.length_fields
  have hafter := hturns.of_arrives harrives hd hkey hx
  rw [show (walkRecord S tag (l.rule S tag) (.record name vs)).1.values = ws from (Value.record.inj hws).2.symm,
    hx'] at hafter
  have htyped := (WellTyped.record_iff.1 hv).2 x (List.mem_of_getElem? hx)
  refine ⟨Value.wellTyped_chainEnd (Value.wellTyped_allocate htyped), ?_, ?_⟩
  · rw [Value.ty_chainEnd_allocate, hv.ty_field hd hx]
  · obtain rfl := Option.some.inj hafter
    refine Value.chainEnd_setChainEnd _ ?_
    rw [Value.isPointer, Answer.ty_effect]
    exact Value.isSettled_allocate S x

/-- **A fill inside a fill is a fill.** By induction on where it lies: its record was well typed, and is left as the
rule of its lookup leaves it. -/
theorem SubFill.eq_recordRule {l m : Lookup} {v v' u u' : Value} (h : SubFill S tag l v v' m u u') (hv : WellTyped S v)
    {name : String} (hty : v.ty = .record name) (hv' : v' = (recordRule S tag (l.rule S tag) v).2) :
    WellTyped S u ∧ (∃ inner, u.ty = .record inner) ∧ u' = (recordRule S tag (m.rule S tag) u).2 := by
  induction h generalizing name with
  | itself l v v' => exact ⟨hv, ⟨name, hty⟩, hv'⟩
  | inField hd hkey harrives hx hx' hanswer hinner h ih =>
    obtain ⟨hbefore, hend, hafter⟩ := chainEnd_of_arrives hv hv' harrives hd hkey hx hx'
    rw [hinner] at hend
    rw [Answer.effect_of_inPlace? hanswer _ _ hend] at hafter
    exact ih hbefore hend hafter
  | inElement hd hkey harrives hx hx' hanswer hslice hinner hlist hy h ih =>
    obtain ⟨-, hend, hafter⟩ := chainEnd_of_arrives hv hv' harrives hd hkey hx hx'
    rw [hslice] at hend
    have hbuilt := Answer.eq_of_builders hanswer _ _ hend hinner (hafter.symm.trans hlist) hy
    have hzero : (Value.zero S _).ty = .record _ := (Value.ty_zero S _).trans hinner
    refine ih (Value.wellTyped_zero S _) hzero ?_
    rw [hbuilt, Value.chainEnd_layered]
    rw [Value.isPointer, recordRule, ty_walkRecord, hzero]
    rfl

theorem sameHidden_recordRule (tag : Option String) (l : Lookup) {u : Value} (hu : WellTyped S u) {name : String}
    (hty : u.ty = .record name) :
    SameHidden S u (recordRule S tag (l.rule S tag) u).2 := by
  obtain ⟨vs, rfl⟩ := Value.eq_record_of_ty hty
  obtain ⟨n, hturns⟩ := turns_walkRecord S tag l hu.length_fields
  refine ⟨name, vs, _, rfl, rfl, ?_⟩
  intro p d hd hhidden
  obtain ⟨x, hx⟩ := hu.exists_field hd
  have hno : d.key? tag = none := by simp [FieldDecl.key?, hhidden]
  have hkept := hturns.kept p d x hd hx (.inl hno)
  rw [FieldDecl.passed, if_neg (by simp [hhidden])] at hkept
  exact hkept.trans hx.symm

/-- an element that the answer for a field built has its hidden fields at zero -/
theorem hiddenZero_of_builders {l : Lookup} {name inner key : String} {vs ws ys : List Value} {p : Nat} {d : FieldDecl}
    {e : Ty} {x' y : Value} (hv : WellTyped S (.record name vs))
    (hws : .record name ws = (recordRule S tag (l.rule S tag) (.record name vs)).2)
    (hd : (S.fields name)[p]? = some d) (hkey : d.key? tag = some key) (harrives : Arrives S tag l name vs p)
    (hx' : ws[p]? = some x') (hanswer : (l key).isLookups = true) (hslice : d.ty.resolved = .slice e)
    (hinner : e.resolved = .record inner) (hlist : x'.chainEnd = .list e ys) (hy : y ∈ ys) :
    HiddenZero S y.chainEnd := by
  obtain ⟨x, hx⟩ := hv.exists_field hd
  obtain ⟨-, hend, hafter⟩ := chainEnd_of_arrives hv hws harrives hd hkey hx hx'
  rw [hslice] at hend
  have heffect := hafter.symm.trans hlist
  obtain ⟨i, hi⟩ := List.mem_iff_getElem?.1 hy
  have hbuilder : i < (l key).builders.length :=
    Nat.lt_of_lt_of_le (List.getElem?_eq_some_iff.1 hi).1
      (Answer.length_le_builders hanswer key d.name hend hinner heffect)
  have hbuilt := Answer.eq_of_builders (List.getElem?_eq_getElem hbuilder) key d.name hend hinner heffect hi
  have hzero : (Value.zero S e.resolved).ty = .record inner := (Value.ty_zero S _).trans hinner
  have hsame := sameHidden_recordRule tag (l key).builders[i] (Value.wellTyped_zero S _) hzero
  rw [hbuilt, Value.chainEnd_layered]
  · exact hsame.hiddenZero
  · rw [Value.isPointer, recordRule, ty_walkRecord, hzero]
    rfl

end

/-- All elements that a fill from l built for the lists of records among its own fields have their hidden fields at
zero. The old elements of a list that the fill did not come to do not count. -/
def BuildsHiddenZero (S : Schema) (tag : Option String) (l : Lookup) (v v' : Value) : Prop :=
  ∀ (name inner key : String) (vs ws ys : List Value) (p : Nat) (d : FieldDecl) (e : Ty) (x' y : Value),
    v = .record name vs → v' = .record name ws → (S.fields name)[p]? = some d → d.key? tag = some key →
    Arrives S tag l name vs p → ws[p]? = some x' → (l key).isLookups = true → d.ty.resolved = .slice e →
    e.resolved = .record inner → x'.chainEnd = .list e ys → y ∈ ys → HiddenZero S y.chainEnd

/-- **Hidden fields are out of reach of a fill.** On every writable wrapper on a record, by names or by an annotation,
whatever the lookup answers and whether or not the fill fails: no hidden field changes, neither of the record itself,
nor of a record that is filled in place at any depth, nor of an element from its zero value on. So every element that
is built, for a list at any depth, has its hidden fields at zero. -/
theorem Wrapper.fill_keeps_hidden {S : Schema} {w : Wrapper} (hw : Built S w) {v : Value} {name : String}
    (hc : w.contents? = some v) (hty : v.ty = .record name) (tag : Option String) (l : Lookup) :
    ∃ v', (w.fill S tag l).value.wrapper.contents? = some v' ∧
      ∀ m u u', SubFill S tag l v v' m u u' → SameHidden S u u' ∧ BuildsHiddenZero S tag m u u' := by
  obtain ⟨st, hst, h⟩ := hw.holds
  have hend : st.chainEnd = v := Option.some.inj (h.contents.symm.trans hc)
  have hname : st.ty.resolved = .record name := by rw [← h.ty_chainEnd, hend, hty]
  have hv : WellTyped S v := hend ▸ Value.wellTyped_chainEnd hst
  refine ⟨(recordRule S tag (l.rule S tag) v).2, ?_, ?_⟩
  · rw [h.value_fill hname, hend]
    refine h.contents_put ?_
    rw [ty_walkRecord, hty, hname]
  · intro m u u' hsub
    obtain ⟨hu, ⟨inner, hinner⟩, rfl⟩ := hsub.eq_recordRule hv hty rfl
    refine ⟨sameHidden_recordRule tag m hu hinner, ?_⟩
    rintro name' _ key vs ws ys p d e x' y rfl hws hd hkey harrives hx' hanswer hslice helem hlist hy
    exact hiddenZero_of_builders hu hws.symm hd hkey harrives hx' hanswer hslice helem hlist hy

/-- a fill of an account that fails in the second of three guests, and answers hidden names too: the serial number and
the owner's token stay, and the guest that was built has no token -/
theorem Wrapper.fill_keeps_hidden_account :
    let before := Sample.accountOf 7 (Sample.ownerOf "secret" "old") (.nil Sample.byte) [Sample.ownerOf "gone" "guest"]
    let w := (locate Sample.accounts before).value
    let named (name : String) : Lookup :=
      Lookup.ofEntries [("token", .value (.literal "leak")), ("name", .value (.literal name))]
    let l := Lookup.ofEntries [("serial", .value (.literal "9")), ("owner", .nested (named "Ada")),
      ("guests", .several [named "Bob", Lookup.ofEntries [("name", .nested (named ""))], named "Eve"])]
    (w.fill Sample.accounts none l).value.result =
        .error (.inField "guests" (.inElement 1 (.inField "name" (.shapeMismatch "name" "name" "a getter")))) ∧
      ∃ v owner guest, (w.fill Sample.accounts none l).value.wrapper.contents? = some v ∧
        v = Sample.accountOf 7 owner (.ptr (.scalar (.ofInt ⟨false, .w8⟩ 0))) [guest] ∧
        SameHidden Sample.accounts (Sample.ownerOf "secret" "old") owner ∧ HiddenZero Sample.accounts guest := by
  intro before w named l
  have hbefore : WellTyped Sample.accounts before :=
    Sample.wellTyped_accountOf 7 "secret" "old" (by simpa [Sample.ownerOf, Value.ty] using Sample.wellTyped_ownerOf _ _)
  obtain ⟨v, hcontents, hkept⟩ := fill_keeps_hidden (.locate hbefore) rfl rfl none l
  have hv : v = Sample.accountOf 7 (Sample.ownerOf "secret" "Ada") (.ptr (.scalar (.ofInt ⟨false, .w8⟩ 0)))
      [Sample.ownerOf "" "Bob"] := by
    rw [← Option.some.injEq, ← hcontents]
    cbv
  -- no field in front of the guests fails, so the fill comes to the owner and to the guests
  have harrives : Arrives Sample.accounts none l "Account" (Sample.accountFields 7 (Sample.ownerOf "secret" "old")
      (.nil Sample.byte) [Sample.ownerOf "gone" "guest"]) 3 := by
    intro q d key x hq hd hkey hx
    have hcases : q = 0 ∨ q = 1 ∨ q = 2 := by omega
    rcases hcases with rfl | rfl | rfl
    · obtain rfl := Option.some.inj hd
      cases hkey
    · obtain rfl := Option.some.inj hd
      obtain rfl := Option.some.inj hkey
      obtain rfl := Option.some.inj hx
      cbv
    · obtain rfl := Option.some.inj hd
      obtain rfl := Option.some.inj hkey
      obtain rfl := Option.some.inj hx
      cbv
  have hearlier : Arrives Sample.accounts none l "Account" _ 1 :=
    fun q d key x hq => harrives q d key x (by omega)
  subst hv
  have howner := (hkept (named "Ada") (Sample.ownerOf "secret" "old") (Sample.ownerOf "secret" "Ada")
    (.inField (p := 1) rfl rfl hearlier rfl rfl rfl rfl (.itself _ _ _))).1
  have hguest := (hkept l before _ (.itself _ _ _)).2 "Account" "Owner" "guests" _ _ [Sample.ownerOf "" "Bob"] 3 _ _ _
    (Sample.ownerOf "" "Bob") rfl rfl rfl rfl harrives rfl rfl rfl rfl rfl (by simp)
  exact ⟨by cbv, _, _, _, hcontents, rfl, howner, hguest⟩

end DynAssign
