/-
Sources assigned to the elements of a list, one each.

A list never takes a source as it is: it makes a fresh element for each, assigns the source to that, and takes what
the element stores then. `Wrapper.assignedElement` is this step for one source. For several sources there are two ways
to end:
- `Wrapper.Elements`: every assignment succeeds, and these are the elements;
- `Wrapper.FirstFault`: the assignment at this place fails, and none before it does.

`convertAll_eq_ok_iff` and `convertAll_eq_error_iff` say that the two are how the conversion of several sources ends.
Main statements:
- `Wrapper.append_elements`: `append` puts the elements at the end of a list, or leaves the list as it is;
- `Wrapper.assign_elements`: an assignment to a list replaces its contents by the elements. A source that is no list
  counts as the only item of one, and an element is assigned to by the same rule, so lists of different depths spread
  and collapse level by level.
-/
import DynAssign.Proofs.Layers
import DynAssign.Proofs.ReadOnly

namespace DynAssign

/-! ## What a source offers -/

theorem Schema.isVoid_eq_false_iff (S : Schema) (t : Ty) :
    S.isVoid t = false ↔ t.resolved ≠ .unit ∧ t.resolved ≠ .any ∧ ∀ name, t.resolved ≠ .sealed name := by
  rw [Bool.eq_false_iff, Ne, S.isVoid_iff]
  simp

theorem Schema.resolved_ne_any {S : Schema} {t : Ty} (h : S.isVoid t = false) : t.resolved ≠ .any :=
  ((S.isVoid_eq_false_iff t).1 h).2.1

namespace Value

/-- What is behind the dynamic slots and then the pointers of a source. It is none if the chain of declared types ends
in no value or in one without structure, and if a pointer is nil. -/
def offered? (S : Schema) (src : Value) : Option Value :=
  if S.isVoid src.concrete.ty then none
  else match src.concrete.chainEnd with
    | nil _ => none
    | u => some u

section

variable {S : Schema} {src : Value}

theorem offered?_of_isVoid (h : S.isVoid src.concrete.ty = true) : src.offered? S = none := by
  rw [offered?, if_pos h]

/-- a source of known structure offers the value at the end of the walk through all layers -/
theorem offered?_of_not_isVoid (h : S.isVoid src.concrete.ty = false) : src.offered? S = src.content? := by
  rw [offered?, if_neg (by simp [h]), ← content?_concrete]
  rcases content?_cases (Schema.resolved_ne_any h) with ⟨hsettled, hc⟩ | ⟨⟨t, ht⟩, hc⟩
  · rw [hc]
    split
    · next t ht => exact absurd ht (hsettled.chainEnd_ne_nil t)
    · rfl
  · rw [hc, ht]

theorem sizeOf_offered?_le {u : Value} (h : src.offered? S = some u) : sizeOf u ≤ sizeOf src := by
  have hconcrete := sizeOf_concrete_le src
  have hend := sizeOf_chainEnd_le src.concrete
  unfold offered? at h
  split at h
  · cases h
  · split at h
    · cases h
    · obtain rfl := Option.some.inj h
      omega

theorem content?_chainEnd (v : Value) : v.chainEnd.content? = v.content? := by
  fun_induction chainEnd v with
  | case1 v ih => rw [ih, content?]
  | case2 v ih => rw [ih, content?]
  | case3 => rfl

/-- what is offered lies behind no layer, and has structure -/
theorem of_offered? {u : Value} (h : src.offered? S = some u) : u.concrete = u ∧ S.isVoid u.ty = false ∧
    u.content? = some u := by
  cases hvoid : S.isVoid src.concrete.ty with
  | true =>
    rw [offered?_of_isVoid hvoid] at h
    cases h
  | false =>
    have hany := Schema.resolved_ne_any hvoid
    rw [offered?_of_not_isVoid hvoid, ← content?_concrete] at h
    obtain ⟨hsettled, rfl⟩ := of_content?_eq_some h hany
    have hty := hsettled.ty_chainEnd
    refine ⟨?_, ?_, by rw [content?_chainEnd, h]⟩
    · apply concrete_of_ty_ne
      rw [hty]
      exact hany
    · rw [hty, Schema.isVoid, S.descriptor_resolved]
      exact hvoid

theorem offered?_self {u : Value} (h : src.offered? S = some u) : u.offered? S = some u := by
  obtain ⟨hconcrete, hknown, hcontent⟩ := of_offered? h
  rw [offered?_of_not_isVoid (by rwa [hconcrete]), hcontent]

/-- into a list: the items of the list that is offered, or what is offered as the only item -/
theorem convert_list (S : Schema) (src : Value) (e : Ty) :
    convert S src (.slice e) = match src.offered? S with
      | none => pure (list e [])
      | some u => list e <$> convertAll S u.asItems 0 e := by
  cases hvoid : S.isVoid src.concrete.ty with
  | true => rw [convert_of_isVoid hvoid, offered?_of_isVoid hvoid, zero]
  | false =>
    rw [offered?_of_not_isVoid hvoid, ← content?_concrete]
    exact convert_slice hvoid e

end

end Value

/-! ## Elements -/

namespace Wrapper

/-- a source assigned to a fresh element of a type: the outcome, and what the element stores then -/
def assignedElement (S : Schema) (e : Ty) (src : Value) : Except Fault Unit × Option Value :=
  let after := ((own S (.zero S e)).value.assign S src).value
  (after.1, after.2.ownStorage?)

/-- each source can be assigned to a fresh element, and these are what the elements store -/
def Elements (S : Schema) (e : Ty) (srcs ys : List Value) : Prop :=
  List.Forall₂ (fun src y => assignedElement S e src = (.ok (), some y)) srcs ys

/-- the source at place k is the first that cannot be assigned to a fresh element -/
structure FirstFault (S : Schema) (e : Ty) (srcs : List Value) (k : Nat) (fault : Fault) : Prop where
  before : ∀ j < k, ∀ src, srcs[j]? = some src → (assignedElement S e src).1 = .ok ()
  failing : ∃ src, srcs[k]? = some src ∧ (assignedElement S e src).1 = .error fault

variable {S : Schema} {e : Ty}

/-- an element stores the converted source behind the layers of the element type -/
theorem assignedElement_eq (S : Schema) (e : Ty) (src : Value) :
    assignedElement S e src = ((assigned S e.resolved src).1, some (.layered e (assigned S e.resolved src).2)) := by
  have hassign := value_assign (.own S (.zero S e)) src
  rw [Value.ty_allocate, Value.ty_zero] at hassign
  rw [assignedElement, hassign, ownStorage?_element]

theorem assignedElement_eq_ok_iff {src y : Value} :
    assignedElement S e src = (.ok (), some y) ↔
      ∃ v, (Value.convert S src e.resolved).run.value = .ok v ∧ Value.layered e v = y := by
  rw [assignedElement_eq, assigned]
  cases (Value.convert S src e.resolved).run.value with
  | error err => simp
  | ok v => simp

theorem assignedElement_eq_error_iff {src : Value} {fault : Fault} :
    (assignedElement S e src).1 = .error fault ↔ (Value.convert S src e.resolved).run.value = .error fault := by
  rw [assignedElement_eq, assigned]
  cases (Value.convert S src e.resolved).run.value with
  | error err => simp
  | ok v => simp

theorem assignedElement_ok_iff {src : Value} :
    (assignedElement S e src).1 = .ok () ↔ ∃ v, (Value.convert S src e.resolved).run.value = .ok v := by
  rw [assignedElement_eq, assigned]
  cases (Value.convert S src e.resolved).run.value with
  | error err => simp
  | ok v => simp

theorem Elements.unique {srcs ys ys' : List Value} (h : Elements S e srcs ys) (h' : Elements S e srcs ys') :
    ys = ys' := by
  refine List.right_unique_forall₂' (fun src y y' hy hy' => ?_) h h'
  simpa using hy.symm.trans hy'

/-- elements are of the element type, and their pointers are allocated -/
theorem Elements.settled {srcs ys : List Value} (h : Elements S e srcs ys) : ∀ y ∈ ys, y.ty = e ∧ y.IsSettled := by
  induction h with
  | nil => simp
  | cons hy _ ih =>
    obtain ⟨v, hv, rfl⟩ := assignedElement_eq_ok_iff.1 hy
    have hty := Value.ty_of_convert hv
    exact List.forall_mem_cons.2 ⟨⟨Value.ty_layered hty, Value.isSettled_layered (Value.isPointer_of_ty hty)⟩, ih⟩

theorem FirstFault.cons {src : Value} {srcs : List Value} {k : Nat} {fault : Fault}
    (hsrc : (assignedElement S e src).1 = .ok ()) (h : FirstFault S e srcs k fault) :
    FirstFault S e (src :: srcs) (k + 1) fault where
  before j hj x hx := by
    cases j with
    | zero =>
      cases hx
      exact hsrc
    | succ j => exact h.before j (by omega) x hx
  failing := h.failing

theorem convertAll_eq_ok_iff {srcs ys : List Value} {i : Nat} :
    (Value.convertAll S srcs i e).run.value = .ok ys ↔ Elements S e srcs ys := by
  induction srcs generalizing i ys with
  | nil =>
    rw [Value.convertAll, Elements, List.forall₂_nil_left_iff, Attempt.value_pure, Except.ok.injEq, eq_comm]
  | cons src rest ih =>
    rw [Value.convertAll_cons_eq_ok, Elements, List.forall₂_cons_left_iff]
    constructor
    · rintro ⟨v, vs, hv, hvs, rfl⟩
      exact ⟨_, vs, assignedElement_eq_ok_iff.2 ⟨v, hv, rfl⟩, ih.1 hvs, rfl⟩
    · rintro ⟨y, vs, hy, hvs, rfl⟩
      obtain ⟨v, hv, rfl⟩ := assignedElement_eq_ok_iff.1 hy
      exact ⟨v, vs, hv, ih.2 hvs, rfl⟩

/-- several sources fail to convert at the first one that an element does not take -/
theorem firstFault_of_convertAll {srcs : List Value} {i : Nat} {err : Fault}
    (h : (Value.convertAll S srcs i e).run.value = .error err) :
    ∃ k fault, err = .inElement (i + k) fault ∧ FirstFault S e srcs k fault := by
  induction srcs generalizing i with
  | nil =>
    rw [Value.convertAll] at h
    cases h
  | cons src rest ih =>
    rcases Value.convertAll_cons_eq_error.1 h with ⟨fault, hfault, rfl⟩ | ⟨hsrc, hrest⟩
    · refine ⟨0, fault, rfl, fun j hj => absurd hj (Nat.not_lt_zero j), src, rfl, ?_⟩
      exact assignedElement_eq_error_iff.2 hfault
    · obtain ⟨k, fault, rfl, hk⟩ := ih hrest
      exact ⟨k + 1, fault, by rw [Nat.add_assoc, Nat.add_comm 1 k], hk.cons (assignedElement_ok_iff.2 hsrc)⟩

theorem Elements.ok_of_mem {srcs ys : List Value} (h : Elements S e srcs ys) :
    ∀ src ∈ srcs, (assignedElement S e src).1 = .ok () := by
  induction h with
  | nil => simp
  | cons hy _ ih => exact List.forall_mem_cons.2 ⟨by rw [hy], ih⟩

theorem FirstFault.exists_mem {srcs : List Value} {k : Nat} {fault : Fault} (h : FirstFault S e srcs k fault) :
    ∃ src ∈ srcs, (assignedElement S e src).1 ≠ .ok () := by
  obtain ⟨src, hsrc, hfault⟩ := h.failing
  exact ⟨src, List.mem_of_getElem? hsrc, by simp [hfault]⟩

theorem exists_elements {srcs : List Value} (h : ∀ src ∈ srcs, (assignedElement S e src).1 = .ok ()) (i : Nat) :
    ∃ ys, Elements S e srcs ys ∧ (Value.convertAll S srcs i e).run.value = .ok ys := by
  cases hr : (Value.convertAll S srcs i e).run.value with
  | ok ys => exact ⟨ys, convertAll_eq_ok_iff.1 hr, rfl⟩
  | error err =>
    obtain ⟨k, fault, -, hk⟩ := firstFault_of_convertAll hr
    obtain ⟨src, hsrc, hne⟩ := hk.exists_mem
    exact absurd (h src hsrc) hne

theorem exists_firstFault {srcs : List Value} (h : ∃ src ∈ srcs, (assignedElement S e src).1 ≠ .ok ()) :
    ∃ k fault, FirstFault S e srcs k fault ∧
      (Value.convertAll S srcs 0 e).run.value = .error (.inElement k fault) := by
  cases hr : (Value.convertAll S srcs 0 e).run.value with
  | ok ys =>
    obtain ⟨src, hsrc, hne⟩ := h
    exact absurd ((convertAll_eq_ok_iff.1 hr).ok_of_mem src hsrc) hne
  | error err =>
    obtain ⟨k, fault, rfl, hk⟩ := firstFault_of_convertAll hr
    rw [Nat.zero_add]
    exact ⟨k, fault, hk, rfl⟩

/-! ## Appending -/

/-- **Appending is atomic and exact.** Items appended to a list are assigned to fresh elements, the same that the
wrapper itself makes. If all of them can be, their elements are put at its end in order, of the element type and with
their pointers allocated. Otherwise the fault is that of the first item that cannot, at its place, and the wrapper is
as before. -/
theorem append_elements {w : Wrapper} (hw : Built S w) {xs : List Value} (hc : w.contents? = some (.list e xs))
    (items : List Value) :
    (w.freshElement S).run.value = .ok (own S (.zero S e)).value ∧
    ((∀ item ∈ items, (assignedElement S e item).1 = .ok ()) →
      ∃ ys, Elements S e items ys ∧ (∀ y ∈ ys, y.ty = e ∧ y.IsSettled) ∧ (w.append S items).value.1 = .ok () ∧
        (w.append S items).value.2.contents? = some (.list e (xs ++ ys))) ∧
    ((∃ item ∈ items, (assignedElement S e item).1 ≠ .ok ()) →
      ∃ k fault, FirstFault S e items k fault ∧ (w.append S items).value = (.error (.inElement k fault), w)) := by
  obtain ⟨st, -, h⟩ := hw.holds
  rw [h.contents, Option.some.injEq] at hc
  have he : st.ty.resolved = .slice e := by rw [← h.ty_chainEnd, hc]; rfl
  have helem : w.descriptor.elemType = some e := by rw [h.descriptor, Schema.elemType_of_resolved_slice S he]
  have happend := value_append h hc items
  refine ⟨by rw [freshElement_run S h.isUnbound helem], ?_, ?_⟩
  · intro hall
    obtain ⟨ys, hys, heq⟩ := exists_elements hall 0
    rw [heq] at happend
    rw [happend]
    exact ⟨ys, hys, hys.settled, rfl, h.contents_put he.symm⟩
  · intro hbad
    obtain ⟨k, fault, hk, heq⟩ := exists_firstFault hbad
    rw [heq] at happend
    exact ⟨k, fault, hk, happend⟩

/-- rows behind pointers, the first of which is nil: a number and a row of texts are appended behind allocated pointers,
and the nil one stays; a text that is no number, inside the second of three items, leaves the list as it is -/
theorem append_elements_rows :
    let row : Ty := .option (.slice Sample.byte)
      let w := (locate Sample.schema (.list row [.nil (.slice Sample.byte)])).value
    let texts (s : String) : Value := .list .literal [.literal "8", .literal s]
    (w.append Sample.schema [.literal "7", texts "9"]).value.2.contents? =
        some (.list row [.nil (.slice Sample.byte), .ptr (Sample.bytes [7]), .ptr (Sample.bytes [8, 9])]) ∧
      (w.append Sample.schema [.literal "7", texts "x", .literal "y"]).value =
        (.error (.inElement 1 (.inElement 1 (.coercion "\"x\"" "u8"))), w) := by
  intro row w texts
  have hw : Built Sample.schema w := .locate (WellTyped.list_iff.2 (List.forall_mem_singleton.2 ⟨rfl, .nil _⟩))
  have hcontents : w.contents? = some (.list row [.nil (.slice Sample.byte)]) := rfl
  have hall := append_elements hw hcontents
  have hseven : assignedElement Sample.schema row (.literal "7") = (.ok (), some (.ptr (Sample.bytes [7]))) := by cbv
  have hnine : assignedElement Sample.schema row (texts "9") = (.ok (), some (.ptr (Sample.bytes [8, 9]))) := by cbv
  have hx : (assignedElement Sample.schema row (texts "x")).1 ≠ .ok () := by
    have hfault : (assignedElement Sample.schema row (texts "x")).1 =
        .error (.inElement 1 (.coercion "\"x\"" "u8")) := by cbv
    simp [hfault]
  constructor
  · obtain ⟨ys, hys, -, -, hcontents⟩ := (hall [.literal "7", texts "9"]).2.1 (by simp [hseven, hnine])
    rw [hcontents, hys.unique (.cons hseven (.cons hnine .nil))]
    rfl
  · obtain ⟨k, fault, -, heq⟩ := (hall [.literal "7", texts "x", .literal "y"]).2.2 ⟨texts "x", by simp, hx⟩
    have hfault : (w.append Sample.schema [.literal "7", texts "x", .literal "y"]).value.1 =
        .error (.inElement 1 (.inElement 1 (.coercion "\"x\"" "u8"))) := by cbv
    rw [heq] at hfault ⊢
    exact Prod.ext hfault rfl

/-! ## Assignment to a list -/

/-- what an assignment leaves in a list -/
theorem assigned_list (S : Schema) (e : Ty) (src : Value) :
    assigned S (.slice e) src = match src.offered? S with
      | none => (.ok (), .list e [])
      | some u => match (Value.convertAll S u.asItems 0 e).run.value with
        | .ok ys => (.ok (), .list e ys)
        | .error err => (.error err, .list e []) := by
  rw [assigned, Value.convert_list, Value.zero]
  cases src.offered? S with
  | none => rfl
  | some u =>
    simp only [ExceptT.run_map, Traced.value_map]
    cases (Value.convertAll S u.asItems 0 e).run.value <;> rfl

/-- **Assignment to a list goes element by element.** Of a source that offers nothing the list is empty. A list that is
offered becomes the list of the elements that its items were assigned to; the fault is that of the first item that
cannot be, at its place, and the list is empty then. Anything else that is offered counts as a list of itself alone. -/
theorem assign_elements {w : Wrapper} (hw : Built S w) {t : Ty} (ht : w.declared = some t) (he : t.resolved = .slice e)
    (src : Value) :
    let after := (w.assign S src).value
    (src.offered? S = none → after.1 = .ok () ∧ after.2.contents? = some (.list e [])) ∧
    (∀ e' xs, src.offered? S = some (.list e' xs) →
      ((∀ x ∈ xs, (assignedElement S e x).1 = .ok ()) →
        ∃ ys, Elements S e xs ys ∧ after.1 = .ok () ∧ after.2.contents? = some (.list e ys)) ∧
      ((∃ x ∈ xs, (assignedElement S e x).1 ≠ .ok ()) →
        ∃ k fault, FirstFault S e xs k fault ∧ after.1 = .error (.inElement k fault) ∧
          after.2.contents? = some (.list e []))) ∧
    ∀ u, src.offered? S = some u → u.items? = none → w.assign S src = w.assign S (.list u.ty [u]) := by
  intro after
  obtain ⟨st, -, h⟩ := hw.holds
  obtain rfl : st.ty = t := Option.some.inj (h.declared.symm.trans ht)
  have hafter : after = ((assigned S (.slice e) src).1, w.put (assigned S (.slice e) src).2) := by
    rw [← he]
    exact value_assign h src
  have hput (ys : List Value) : (w.put (.list e ys)).contents? = some (.list e ys) := h.contents_put he.symm
  rw [assigned_list] at hafter
  refine ⟨?_, ?_, ?_⟩
  · intro hnone
    rw [hnone] at hafter
    rw [hafter]
    exact ⟨rfl, hput []⟩
  · intro e' xs hlist
    have hitems : (Value.list e' xs).asItems = xs := rfl
    rw [hlist] at hafter
    simp only [hitems] at hafter
    refine ⟨fun hall => ?_, fun hbad => ?_⟩
    · obtain ⟨ys, hys, heq⟩ := exists_elements hall 0
      rw [heq] at hafter
      rw [hafter]
      exact ⟨ys, hys, rfl, hput ys⟩
    · obtain ⟨k, fault, hk, heq⟩ := exists_firstFault hbad
      rw [heq] at hafter
      rw [hafter]
      exact ⟨k, fault, hk, rfl, hput []⟩
  · intro u hu hitems
    have halone : (Value.list u.ty [u]).offered? S = some (.list u.ty [u]) := rfl
    have hsame : u.asItems = (Value.list u.ty [u]).asItems := by
      rw [Value.asItems, hitems]
      rfl
    rw [assign_eq_store h, assign_eq_store h, he, Value.convert_list, Value.convert_list, hu, halone]
    simp only [hsame]

/-- Rows of bytes, from texts: a row of texts is mapped, and a text alone spreads to a row. A text in no list at all
spreads twice, behind whatever pointer. Where a text is no number, no rows are left, old or new. -/
theorem assign_elements_rows :
    let row (s : String) : Value := .any (.list .literal [.literal "1", .literal s])
    let w := (locate Sample.schema (Sample.rows [[9], [9, 9], []])).value
    let fault := Fault.inElement 1 (.inElement 1 (.coercion "\"x\"" "u8"))
    (w.assign Sample.schema (.list .any [row "2", .any (.literal "7")])).value.2.contents? =
        some (Sample.rows [[1, 2], [7]]) ∧
      w.assign Sample.schema (.ptr (.literal "5")) = w.assign Sample.schema (.list .literal [.literal "5"]) ∧
      (w.assign Sample.schema (.ptr (.literal "5"))).value.2.contents? = some (Sample.rows [[5]]) ∧
      (w.assign Sample.schema (.list .any [row "2", row "x"])).value.1 = .error fault ∧
      (w.assign Sample.schema (.list .any [row "2", row "x"])).value.2.contents? = some (Sample.rows []) := by
  intro row w fault
  have hw : Built Sample.schema w := .locate (Sample.wellTyped_rows [[9], [9, 9], []])
  have hall := assign_elements hw (t := .slice (.slice Sample.byte)) (e := .slice Sample.byte) rfl rfl
  have hrow : assignedElement Sample.schema (.slice Sample.byte) (row "2") =
      (.ok (), some (Sample.bytes [1, 2])) := by cbv
  have halone : assignedElement Sample.schema (.slice Sample.byte) (.any (.literal "7")) =
      (.ok (), some (Sample.bytes [7])) := by cbv
  have hfive : assignedElement Sample.schema (.slice Sample.byte) (.literal "5") =
      (.ok (), some (Sample.bytes [5])) := by cbv
  have hx : (assignedElement Sample.schema (.slice Sample.byte) (row "x")).1 ≠ .ok () := by
    have hfault : (assignedElement Sample.schema (.slice Sample.byte) (row "x")).1 =
        .error (.inElement 1 (.coercion "\"x\"" "u8")) := by cbv
    simp [hfault]
  have hspread : w.assign Sample.schema (.ptr (.literal "5")) =
      w.assign Sample.schema (.list .literal [.literal "5"]) :=
    (hall (.ptr (.literal "5"))).2.2 (.literal "5") rfl rfl
  refine ⟨?_, hspread, ?_, by cbv, ?_⟩
  · obtain ⟨ys, hys, -, hcontents⟩ := ((hall (.list .any [row "2", .any (.literal "7")])).2.1 .any _ rfl).1
      (by simp [hrow, halone])
    rw [hcontents, hys.unique (.cons hrow (.cons halone .nil))]
    rfl
  · obtain ⟨ys, hys, -, hcontents⟩ := ((hall (.list .literal [.literal "5"])).2.1 .literal _ rfl).1 (by simp [hfive])
    rw [hspread, hcontents, hys.unique (.cons hfive .nil)]
    rfl
  · obtain ⟨k, fault, -, -, hcontents⟩ := ((hall (.list .any [row "2", row "x"])).2.1 .any _ rfl).2
      ⟨row "x", by simp, hx⟩
    exact hcontents

end Wrapper

end DynAssign
