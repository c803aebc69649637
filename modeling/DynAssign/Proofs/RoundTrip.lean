/-
A record filled from its own document.

A document forgets widths, pointers and what is hidden. Filling puts the visible data back, whatever was there before:
- `convert_stored_list`: what a document stores of a list without records is converted into that list;
- `restores`: the answer of a document restores the value that was rendered, by induction on the value;
- `Wrapper.fill_document`: the main statement, for a whole record.
-/
import DynAssign.Proofs.Effect
import DynAssign.Proofs.Layers
import DynAssign.Proofs.Rendering

namespace DynAssign

/-! ## Integers -/

namespace IntKind

theorem wrap_toInt (k : IntKind) (x : BitVec k.bits) : k.wrap (k.toInt x) = x := by
  unfold wrap toInt
  split
  · exact BitVec.ofInt_toInt
  · rw [BitVec.ofInt_natCast, BitVec.ofNat_toNat, BitVec.setWidth_eq]

theorem bits_le (k : IntKind) : k.bits ≤ 64 := by
  unfold bits
  cases k.width <;> decide

theorem toInt_nonneg {k : IntKind} (hk : k.signed = false) (x : BitVec k.bits) : 0 ≤ k.toInt x := by
  simp [toInt, hk]

/-- 64 bits hold every word, signed or unsigned -/
theorem toInt_bounds (k : IntKind) (x : BitVec k.bits) : -2 ^ 63 ≤ k.toInt x ∧ k.toInt x < 2 ^ 64 := by
  have hpow : 2 ^ k.bits ≤ 2 ^ 64 := Nat.pow_le_pow_right (by decide) k.bits_le
  have hpow' : (2 : Int) ^ k.bits ≤ 2 ^ 64 := by exact_mod_cast hpow
  have hlt := x.isLt
  have h1 := BitVec.two_mul_toInt_lt (x := x)
  have h2 := BitVec.le_two_mul_toInt (x := x)
  unfold toInt
  split <;> omega

/-- a 64-bit kind that is signed below 2^63 and unsigned above holds every integer of either range -/
theorem toInt_wrap_wide {n : Int} (h : -2 ^ 63 ≤ n) (h' : n < 2 ^ 64) :
    toInt ⟨n < 2 ^ 63, .w64⟩ (wrap ⟨n < 2 ^ 63, .w64⟩ n) = n := by
  cases hn : decide (n < 2 ^ 63) with
  | true =>
    have hn : n < 2 ^ 63 := by simpa using hn
    change (BitVec.ofInt 64 n).toInt = n
    rw [BitVec.toInt_ofInt, Int.bmod_def]
    omega
  | false =>
    have hn : ¬ n < 2 ^ 63 := by simpa using hn
    change ((BitVec.ofInt 64 n).toNat : Int) = n
    rw [BitVec.toNat_ofInt]
    omega

end IntKind

theorem Number.toWord_toInt (k : IntKind) (x : BitVec k.bits) : (Number.integer (k.toInt x)).toWord k = x := by
  rw [toWord, k.wrap_toInt, if_neg]
  rintro ⟨hk, hn⟩
  have := IntKind.toInt_nonneg (by simpa using hk) x
  omega

theorem convert?_scalar_integer (k : IntKind) (x : BitVec k.bits) :
    (Number.integer (k.toInt x)).scalar.convert? (.int k) = some (.int k x) := by
  have hbounds := k.toInt_bounds x
  simp only [Number.scalar, Scalar.ofInt, Scalar.convert?, Scalar.integerReading?, Number.ofScalar?, Option.map_some]
  rw [IntKind.toInt_wrap_wide hbounds.1 hbounds.2, Number.toWord_toInt]

namespace Value

variable {S : Schema} {good : String → Prop}

/-! ## What a document stores, converted back -/

theorem concrete_stored (d : Document) : d.stored.concrete = d.stored := by
  cases d <;> rfl

theorem items?_of_scalar? {u : Value} {s : Scalar} (hu : u.scalar? = some s) : u.items? = none := by
  cases u with
  | list e xs => cases hu
  | _ => rfl

/-- What shows a scalar is converted as the scalar. The copy that is made for a destination of its own type makes no
difference if a conversion into that kind would change nothing. -/
theorem convertLeaf_of_scalar? {u : Value} {s : Scalar} {k : ScalarKind} (hu : u.scalar? = some s)
    (hself : s.kind = k → s.convert? k = some s) :
    u.convertLeaf (.scalar k) = match s.convert? k with
      | some r => .ok (scalar r)
      | none => .error (Fault.coercion s.described k.name) := by
  rw [convertLeaf]
  split_ifs with hty
  · -- fixed text is of no scalar type, so the source is the scalar itself
    cases u with
    | scalar s' =>
      obtain rfl := Option.some.inj hu
      rw [hself (Ty.scalar.inj hty)]
    | _ => cases hty
  · cases hr : s.convert? k <;> simp only [coerce, hu, hr]

/-- a source that shows a scalar is no list and lies behind no pointer -/
theorem convert_shown {src : Value} {s : Scalar} {k : ScalarKind} (hsrc : src.concrete.scalar? = some s)
    (hself : s.kind = k → s.convert? k = some s) :
    convert S src (.scalar k) = liftExcept (match s.convert? k with
      | some r => .ok (scalar r)
      | none => .error (Fault.coercion s.described k.name)) := by
  have hleaf : S.isVoid src.concrete.ty = false ∧ src.concrete.content? = some src.concrete := by
    generalize src.concrete = u at hsrc ⊢
    cases u with
    | scalar s => exact ⟨rfl, rfl⟩
    | literal s => exact ⟨rfl, rfl⟩
    | _ => cases hsrc
  obtain ⟨hvoid, hcontent⟩ := hleaf
  rw [content?_concrete] at hcontent
  rw [convert_content hvoid (by simp) (by simp) rfl, hcontent]
  simp only [items?_of_scalar? hsrc, convertLeaf_of_scalar? hsrc hself]

theorem convert_scalar {src : Value} {s r : Scalar} (hsrc : src.concrete.scalar? = some s)
    (hself : s.kind = r.kind → s = r) (hr : s.convert? r.kind = some r) :
    (convert S src (.scalar r.kind)).run.value = .ok (scalar r) := by
  rw [convert_shown hsrc fun hk => by rw [hr, hself hk], hr]
  rfl

theorem convert_stored_integer {src : Value} {k : IntKind} {x : BitVec k.bits}
    (hsrc : src.concrete = scalar (Number.integer (k.toInt x)).scalar) :
    (convert S src (.scalar (.int k))).run.value = .ok (scalar (.int k x)) := by
  refine convert_scalar (r := .int k x) (by rw [hsrc]; rfl) ?_ (convert?_scalar_integer k x)
  intro hk
  simp only [Number.scalar, Scalar.ofInt, Scalar.kind, ScalarKind.int.injEq] at hk ⊢
  rw [hk, k.wrap_toInt]

theorem convertAll_stored {e : Ty} {xs : List Value} (hxs : ∀ x ∈ xs, x.ty = e ∧ x.IsSettled ∧
      ∀ src, src.concrete = (x.document S).stored → (convert S src e.resolved).run.value = .ok x.chainEnd) (i : Nat) :
    (convertAll S (Document.storedAll (documents S xs)) i e).run.value = .ok xs := by
  induction xs generalizing i with
  | nil =>
    rw [documents, Document.storedAll, convertAll]
    rfl
  | cons x xs ih =>
    rw [List.forall_mem_cons] at hxs
    obtain ⟨⟨hty, hsettled, hx⟩, hxs⟩ := hxs
    rw [documents, Document.storedAll, convertAll_cons_eq_ok]
    refine ⟨x.chainEnd, xs, hx _ (by rw [concrete, concrete_stored]), ih hxs (i + 1), ?_⟩
    rw [← hty, hsettled.layered_chainEnd]

theorem convert_stored_array {e : Ty} {xs : List Value} (hxs : ∀ x ∈ xs, x.ty = e ∧ x.IsSettled ∧
      ∀ src, src.concrete = (x.document S).stored → (convert S src e.resolved).run.value = .ok x.chainEnd)
    {src : Value} (hsrc : src.concrete = (Document.array (documents S xs)).stored) :
    (convert S src (.slice e)).run.value = .ok (list e xs) := by
  have hvoid : S.isVoid src.concrete.ty = false := by rw [hsrc]; rfl
  have hall := convertAll_stored hxs 0
  rw [convert_slice hvoid, hsrc, Document.stored]
  simp only [content?, asItems, items?, Option.getD_some]
  exact Attempt.map_eq_ok.2 ⟨xs, hall, rfl⟩

theorem sizeOf_chainEnd_lt_list (e : Ty) {x : Value} {xs : List Value} (hx : x ∈ xs) :
    sizeOf x.chainEnd < sizeOf (list e xs) := by
  have h1 := List.sizeOf_lt_of_mem hx
  have h2 := sizeOf_chainEnd_le x
  simp
  omega

theorem convert_stored_scalar {s : Scalar} (hx : Plain S good (.scalar s)) {src : Value}
    (hsrc : src.concrete = ((scalar s).document S).stored) :
    (convert S src (.scalar s.kind)).run.value = .ok (scalar s) := by
  cases s with
  | bool b => exact convert_scalar (by rw [hsrc]; rfl) (fun _ => rfl) rfl
  | int k x => exact convert_stored_integer hsrc
  | float p x => exact hx.documentable.elim
  | string s => exact convert_scalar (by rw [hsrc]; rfl) (fun _ => rfl) rfl

/-- What a document stores of a plain list without records is converted into the list. The lists in it hold no records
either, so the induction goes through. -/
theorem convert_stored_list {e : Ty} {xs : List Value} (hx : Plain S good (.list e xs))
    (he : ∀ name, e.resolved ≠ .record name) {src : Value} (hsrc : src.concrete = ((list e xs).document S).stored) :
    (convert S src (.slice e)).run.value = .ok (list e xs) := by
  refine convert_stored_array (fun x hmem => ?_) hsrc
  obtain ⟨hty, hplain⟩ := hx.item hmem
  refine ⟨hty, hplain.settled, fun src' hsrc' => ?_⟩
  have hend : x.chainEnd.ty = e.resolved := by rw [hplain.settled.ty_chainEnd, hty]
  have hitem := hplain.chainEnd
  have hpointer : x.chainEnd.isPointer = false := hplain.settled
  have hlt := sizeOf_chainEnd_lt_list e hmem
  rw [← document_chainEnd] at hsrc'
  rw [← hend]
  generalize x.chainEnd = y at hend hitem hpointer hlt hsrc' ⊢
  cases y with
  | scalar s => exact convert_stored_scalar hitem hsrc'
  | list inner ys => exact convert_stored_list hitem (fun name => hx.documentable.2 inner name hend.symm) hsrc'
  | record name vs => exact absurd hend.symm (he name)
  | _ => first | exact hitem.documentable.elim | exact absurd hpointer (by simp [isPointer, ty, Ty.isPointer])
termination_by sizeOf (list e xs)
decreasing_by exact hlt

end Value

/-! ## What the answers of a document leave -/

namespace Document

theorem entry_of_mem {es : List (String × Document)} (hes : (es.map (·.1)).Nodup) {k : String} {d : Document}
    (h : (k, d) ∈ es) : entry es k = d.answer := by
  induction es with
  | nil => simp at h
  | cons p es ih =>
    obtain ⟨k', d'⟩ := p
    rw [List.map_cons, List.nodup_cons] at hes
    obtain ⟨hfirst, hes⟩ := hes
    rw [entry]
    rcases List.mem_cons.1 h with h | h
    · cases h
      have hno : es.any (·.1 = k) = false := by
        rw [List.any_eq_false]
        intro p hp hk
        exact hfirst (List.mem_map.2 ⟨p, hp, by simpa using hk⟩)
      simp [hno]
    · have hyes : es.any (·.1 = k) = true := List.any_eq_true.2 ⟨_, h, by simp⟩
      simp [hyes, ih hes h]

end Document

namespace Value

variable {S : Schema} {good : String → Prop}

/-- the answer of its document puts the visible data of a value back into contents of its type -/
def Restores (S : Schema) (x : Value) : Prop :=
  ∀ (old : Value) (key name : String), WellTyped S old → old.ty = x.ty.resolved →
    ∃ r, (x.document S).answer.effect S none key name old = (.ok (), r) ∧ r.exposed S = x.chainEnd.exposed S

namespace Restores

variable {x : Value}

theorem of_chainEnd (hx : x.IsSettled) (h : Restores S x.chainEnd) : Restores S x := by
  intro old key name hold hty
  have hend := h old key name hold (by rw [hx.ty_chainEnd, Ty.resolved_resolved, hty])
  rwa [document_chainEnd, chainEnd_of_not_isPointer hx] at hend

/-- behind its layers a value is restored in the storage of a field -/
theorem rule (h : Restores S x) (hx : x.IsSettled) {l : Lookup} {key : String} (hl : l key = (x.document S).answer)
    (name : String) {st : Value} (hst : WellTyped S st) (hsettled : st.IsSettled) (hty : st.ty = x.ty) :
    ∃ y, l.rule S none key name st = (.ok (), y) ∧ y.exposed S = x.exposed S := by
  have hend : st.chainEnd.ty = x.ty.resolved := by rw [hsettled.ty_chainEnd, hty]
  obtain ⟨r, hr, hexposed⟩ := h st.chainEnd key name (wellTyped_chainEnd hst) hend
  refine ⟨st.setChainEnd r, ?_, ?_⟩
  · rw [Lookup.rule, atEnd, hl, hr]
  · calc (st.setChainEnd r).exposed S
      _ = layered x.ty (r.exposed S) := by rw [setChainEnd_eq_layered, exposed_layered, hty]
      _ = (layered x.ty x.chainEnd).exposed S := by rw [hexposed, exposed_layered]
      _ = x.exposed S := by rw [hx.layered_chainEnd]

end Restores

/-- a walk over storages of the declared types restores the visible fields that the lookup has -/
theorem walk_restores {l : Lookup} {ds : List FieldDecl} {xs olds : List Value}
    (hfields : ∀ d x, (d, x) ∈ ds.zip xs → d.visible = true →
      l d.name = (x.document S).answer ∧ x.IsSettled ∧ Restores S x)
    (hxs : xs.map ty = ds.map (·.ty)) (holds : olds.map ty = ds.map (·.ty)) (hsettled : VisibleSettled ds olds)
    (htyped : ∀ v ∈ olds, WellTyped S v) :
    (walk none (l.rule S none) ds olds).result = .ok () ∧
      exposedFields S ds (walk none (l.rule S none) ds olds).values = exposedFields S ds xs := by
  induction ds generalizing xs olds with
  | nil =>
    obtain rfl : xs = [] := by simpa using hxs
    obtain rfl : olds = [] := by simpa using holds
    exact ⟨rfl, rfl⟩
  | cons d ds ih => cases xs with
    | nil => simp at hxs
    | cons x xs => cases olds with
      | nil => simp at holds
      | cons v olds =>
        simp only [List.map_cons, List.cons.injEq] at hxs holds
        rw [List.forall_mem_cons] at htyped
        have hrest : ∀ d x, (d, x) ∈ ds.zip xs → d.visible = true →
            l d.name = (x.document S).answer ∧ x.IsSettled ∧ Restores S x :=
          fun d x hx => hfields d x (List.mem_cons_of_mem _ hx)
        obtain ⟨hresult, hvalues⟩ := ih hrest hxs.2 holds.2 hsettled.2 htyped.2
        by_cases hd : d.visible
        · obtain ⟨hl, hx, hrestores⟩ := hfields d x (by simp) hd
          obtain ⟨y, hy, hexposed⟩ := hrestores.rule hx hl d.name htyped.1 (hsettled.1 hd) (by rw [holds.1, hxs.1])
          have hk : d.key? none = some d.name := by simp [FieldDecl.key?, hd]
          rw [walk_cons_ok hk hy]
          exact ⟨hresult, by simp [exposedFields, hd, hexposed, hvalues]⟩
        · have hk : d.key? none = none := by simp [FieldDecl.key?, hd]
          rw [walk_cons_none hk]
          exact ⟨hresult, by simp [exposedFields, hd, hvalues]⟩

theorem walkRecord_restores {name : String} {vs : List Value} (hx : WellTyped S (.record name vs))
    (hfields : ∀ d x, (d, x) ∈ (S.fields name).zip vs → d.visible = true → x.IsSettled ∧ Restores S x) {old : Value}
    (hold : WellTyped S old) (hty : old.ty = .record name) :
    let after := walkRecord S none ((Document.entry (entries S (S.fields name) vs)).rule S none) old
    after.1.result = .ok () ∧ after.2.exposed S = (record name vs).exposed S := by
  have hnames : ((entries S (S.fields name) vs).map (·.1)).Nodup :=
    (S.names_nodup name).sublist (names_entries_sublist _ vs)
  cases hx with
  | record hvs hvs' => cases hold with
    | @record name' olds holds holds' =>
      obtain rfl : name' = name := by simpa [ty] using hty
      have hanswers : ∀ d x, (d, x) ∈ (S.fields name').zip vs → d.visible = true →
          Document.entry (entries S (S.fields name') vs) d.name = (x.document S).answer ∧ x.IsSettled ∧ Restores S x :=
        fun d x hx hd => ⟨Document.entry_of_mem hnames (mem_entries hx hd), hfields d x hx hd⟩
      have hwalk := walk_restores hanswers hvs ((map_ty_allocateVisible S _ olds).trans holds)
        (visibleSettled_allocateVisible S _ olds) (wellTyped_allocateVisible holds')
      refine ⟨hwalk.1, ?_⟩
      simp only [walkRecord, exposed, hwalk.2]
    | _ => cases hty

theorem restores_record {name : String} {vs : List Value} (hx : WellTyped S (.record name vs))
    (hfields : ∀ d x, (d, x) ∈ (S.fields name).zip vs → d.visible = true → x.IsSettled ∧ Restores S x) :
    Restores S (.record name vs) := by
  intro old key field hold hty
  replace hty : old.ty = .record name := hty
  obtain ⟨hresult, hexposed⟩ := walkRecord_restores hx hfields hold hty
  refine ⟨_, ?_, hexposed⟩
  rw [document, Document.answer, Answer.effect_nested, shaped_of_record hty, recordRule, hresult]

theorem isObject_document {x : Value} (hx : x.IsSettled) :
    (x.document S).isObject = true ↔ ∃ name, x.ty.resolved = .record name := by
  rw [← document_chainEnd, ← hx.ty_chainEnd]
  unfold IsSettled at hx
  generalize x.chainEnd = y at hx ⊢
  cases y with
  | scalar s => cases s <;> simp [document, Document.isObject, ty]
  | ptr v => simp [isPointer, ty, Ty.isPointer] at hx
  | box v => simp [isPointer, ty, Ty.isPointer] at hx
  | _ => simp [document, Document.isObject, ty]

/-- a zero element filled from the document of an element is that element again -/
theorem builtElement_restores {x : Value} {name : String} (hty : x.ty.resolved = .record name) (hx : x.IsSettled)
    (h : Restores S x) :
    ∃ es y, x.document S = .object es ∧ builtElement S none ((Document.entry es).rule S none) x.ty = .ok y ∧
      y.exposed S = x.exposed S := by
  obtain ⟨es, hes⟩ : ∃ es, x.document S = .object es := by
    have hobject := (isObject_document (S := S) hx).2 ⟨name, hty⟩
    cases hdoc : x.document S <;> rw [hdoc] at hobject <;> simp_all [Document.isObject]
  obtain ⟨r, hr, hexposed⟩ := h (.zero S x.ty.resolved) "" "" (wellTyped_zero S _) (ty_zero S _)
  rw [hes, Document.answer, Answer.effect_nested, shaped_of_record ((ty_zero S _).trans hty), recordRule,
    Prod.mk.injEq] at hr
  refine ⟨es, layered x.ty r, hes, ?_, ?_⟩
  · rw [builtElement]
    simp only [hr.1, hr.2]
    rfl
  · rw [exposed_layered, hexposed, ← exposed_layered, hx.layered_chainEnd]

/-- one element per object restores a list of records -/
theorem effectEach_restores {e : Ty} {name : String} (he : e.resolved = .record name) {xs : List Value}
    (hxs : ∀ x ∈ xs, x.ty = e ∧ x.IsSettled ∧ Restores S x) (i : Nat) :
    ∃ ys, Answer.effectEach S none (Document.lookups (documents S xs)) i e = (.ok (), ys) ∧
      exposedAll S ys = exposedAll S xs := by
  induction xs generalizing i with
  | nil => exact ⟨[], rfl, rfl⟩
  | cons x xs ih =>
    rw [List.forall_mem_cons] at hxs
    obtain ⟨⟨rfl, hsettled, hx⟩, hxs⟩ := hxs
    obtain ⟨es, y, hes, hy, hexposed⟩ := builtElement_restores he hsettled hx
    obtain ⟨ys, hys, hrest⟩ := ih hxs (i + 1)
    refine ⟨y :: ys, ?_, by rw [exposedAll, exposedAll, hexposed, hrest]⟩
    rw [documents, hes, Document.lookups, Answer.effectEach_cons, hy, hys]

theorem assigned_of_convert {src r : Value} {t : Ty} (h : (convert S src t).run.value = .ok r) :
    Wrapper.assigned S t src = (.ok (), r) := by
  rw [Wrapper.assigned, h]

/-- an array holds objects, and objects only, iff it shows a list of records that is not empty -/
theorem objects_iff {e : Ty} {xs : List Value} (hxs : ∀ x ∈ xs, x.ty = e ∧ x.IsSettled) :
    documents S xs ≠ [] ∧ (documents S xs).all Document.isObject = true ↔
      xs ≠ [] ∧ ∃ name, e.resolved = .record name := by
  have hobject : ∀ x ∈ xs, (x.document S).isObject = true ↔ ∃ name, e.resolved = .record name := by
    intro x hx
    obtain ⟨rfl, hsettled⟩ := hxs x hx
    exact isObject_document hsettled
  rw [documents_eq_map, List.all_eq_true, List.forall_mem_map, Ne, List.map_eq_nil_iff]
  refine and_congr_right fun hne => ?_
  constructor
  · intro hall
    obtain ⟨x, hx⟩ := List.exists_mem_of_ne_nil xs hne
    exact (hobject x hx).1 (hall x hx)
  · intro hrec x hx
    exact (hobject x hx).2 hrec

/-- A list is restored if its elements are. An array of objects only comes back as a list of records, one element per
object. Every other array is converted as a whole: an empty one, and one of anything but records. -/
theorem restores_list {e : Ty} {xs : List Value} (hx : Plain S good (.list e xs))
    (hitems : ∀ x ∈ xs, x.ty = e ∧ x.IsSettled ∧ Restores S x) : Restores S (.list e xs) := by
  intro old key field hold hty
  replace hty : old.ty = .slice e := hty
  have hobjects := objects_iff (S := S) fun x hmem => ⟨(hitems x hmem).1, (hitems x hmem).2.1⟩
  rw [document, Document.answer]
  by_cases hrec : xs ≠ [] ∧ ∃ name, e.resolved = .record name
  · rw [if_pos (hobjects.2 hrec)]
    obtain ⟨-, name, hname⟩ := hrec
    obtain ⟨ys, hys, hexposed⟩ := effectEach_restores hname hitems 0
    refine ⟨.list e ys, ?_, by simp only [chainEnd, exposed, hexposed]⟩
    rw [Answer.effect_several, shaped_of_records hty ((S.isRecord_iff e).2 ⟨name, hname⟩), hys]
  · rw [if_neg fun hall => hrec (hobjects.1 hall)]
    have hconvert : (convert S (Document.array (documents S xs)).stored (.slice e)).run.value = .ok (list e xs) := by
      by_cases hnil : xs = []
      · rw [hnil]
        exact convert_stored_array (by simp) (concrete_stored _)
      · exact convert_stored_list hx (fun name hname => hrec ⟨hnil, name, hname⟩) (concrete_stored _)
    refine ⟨list e xs, ?_, rfl⟩
    rw [Answer.effect, hty, assigned_of_convert hconvert]

theorem restores_scalar {s : Scalar} (hx : Plain S good (.scalar s)) : Restores S (.scalar s) := by
  intro old key field hold hty
  replace hty : old.ty = (scalar s).ty := hty
  have hanswer : ((scalar s).document S).answer = .value ((scalar s).document S).stored := by
    cases s with
    | float p x => exact hx.documentable.elim
    | _ => rfl
  refine ⟨scalar s, ?_, rfl⟩
  rw [hanswer, Answer.effect, hty]
  exact assigned_of_convert (convert_stored_scalar hx (concrete_stored _))

/-- **A plain value is restored from its document.** -/
theorem restores {x : Value} (hgood : S.Closed good) (hx : Plain S good x) (hend : x.isPointer = false) :
    Restores S x := by
  cases x with
  | scalar s => exact restores_scalar hx
  | list e xs =>
    refine restores_list hx fun x hmem => ?_
    obtain ⟨hty, hplain⟩ := hx.item hmem
    have hlt := sizeOf_chainEnd_lt_list e hmem
    exact ⟨hty, hplain.settled, .of_chainEnd hplain.settled (restores hgood hplain.chainEnd hplain.settled)⟩
  | record name vs =>
    refine restores_record hx.typed fun d x hmem hd => ?_
    obtain ⟨-, hplain⟩ := hx.field hgood hmem hd
    have hlt : sizeOf x.chainEnd < sizeOf (record name vs) := by
      have h1 := List.sizeOf_lt_of_mem (List.of_mem_zip hmem).2
      have h2 := sizeOf_chainEnd_le x
      simp
      omega
    exact ⟨hplain.settled, .of_chainEnd hplain.settled (restores hgood hplain.chainEnd hplain.settled)⟩
  | _ => first | exact hx.documentable.elim | exact absurd hend (by simp [isPointer, ty, Ty.isPointer])
termination_by sizeOf x

end Value

/-! ## Whole records -/

theorem Holds.value_fill_document {S : Schema} {st x : Value} {w : Wrapper} {name : String} {good : String → Prop}
    (h : Holds S st w) (hst : WellTyped S st) (hty : st.chainEnd.ty = .record name) (hgood : S.Closed good)
    (hx : Value.Plain S good x) (hxty : x.ty = .record name) :
    ∃ z, (w.fill S none (x.document S).lookup).value.result = .ok () ∧
      (w.fill S none (x.document S).lookup).value.wrapper.contents? = some z ∧ z.exposed S = x.exposed S := by
  cases x with
  | record name' vs =>
    obtain rfl : name' = name := by simpa [Value.ty] using hxty
    have hname : st.ty.resolved = .record name' := by rw [← h.ty_chainEnd, hty]
    have hfields : ∀ d u, (d, u) ∈ (S.fields name').zip vs → d.visible = true → u.IsSettled ∧ Value.Restores S u := by
      intro d u hu hd
      obtain ⟨-, hplain⟩ := hx.field hgood hu hd
      exact ⟨hplain.settled, .of_chainEnd hplain.settled (Value.restores hgood hplain.chainEnd hplain.settled)⟩
    obtain ⟨hresult, hexposed⟩ := Value.walkRecord_restores hx.typed hfields (Value.wellTyped_chainEnd hst) hty
    refine ⟨_, ?_, ?_, hexposed⟩
    · rw [h.value_fill hname, Value.document]
      exact hresult
    · rw [h.value_fill hname, Value.document]
      exact h.contents_put ((ty_walkRecord S none _ st.chainEnd).trans h.ty_chainEnd)
  | _ => cases hxty

/-- **Filling from its own document restores a record.** For a record that documents can show, and a value of it whose
visible data holds no nil pointer, a fill of any writable wrapper on such a record from the value's document succeeds
and leaves the visible data of the value, at every depth, whatever the record held before. -/
theorem Wrapper.fill_document {S : Schema} {w : Wrapper} (hw : Built S w) {name : String} (hname : S.Documentable name)
    {x y : Value} (hx : WellTyped S x) (hxty : x.ty = .record name) (hnil : x.NoNil S)
    (hy : w.contents? = some y) (hyty : y.ty = .record name) :
    ∃ z, (w.fill S none (x.document S).lookup).value.result = .ok () ∧
      (w.fill S none (x.document S).lookup).value.wrapper.contents? = some z ∧ z.exposed S = x.exposed S := by
  obtain ⟨st, hst, h⟩ := hw.holds
  obtain ⟨good, hgood, hclosed⟩ := hname
  have hend : st.chainEnd = y := Option.some.inj (h.contents.symm.trans hy)
  have hplain : Value.Plain S good x := ⟨hx, by rw [hxty]; exact hgood, hnil⟩
  exact h.value_fill_document hst (by rw [hend, hyty]) hclosed hplain hxty

namespace Sample

theorem documentable_node : schema.Documentable "Node" := by
  refine ⟨(· = "Node"), rfl, ?_⟩
  rintro name rfl
  change ∀ d ∈ node.fields, d.visible = true → d.ty.Documentable (· = "Node")
  simp only [node, List.forall_mem_cons, Ty.Documentable, byte, Ty.resolved, Ty.slice.injEq]
  refine ⟨by simp, by simp, fun _ => ⟨⟨by simp, ?_⟩, ?_⟩, by simp, by simp⟩
  · rintro _ _ ⟨⟩
  · rintro inner name rfl
    simp [Ty.resolved]

theorem noNil_nodeOf (label : String) (weight : Int) (xss : List (List Int)) {children : List Value} (marked : Bool)
    (hchildren : ∀ v ∈ children, v.NoNil schema) : (nodeOf label weight xss children marked).NoNil schema := by
  rw [nodeOf, Value.noNil_record]
  change ∀ p ∈ node.fields.zip _, _
  simpa [node, rows] using hchildren

end Sample

/-- a node with an unsigned weight that no signed word holds, an empty row and a child, over another node -/
theorem Wrapper.fill_document_node :
    let leaf := Sample.nodeOf "leaf" 7 [] [] true
    let x := Sample.nodeOf "root" (2 ^ 64 - 1) [[255, 0], []] [leaf] true
    let w := (Wrapper.own Sample.schema (Sample.nodeOf "old" 1 [[9]] [leaf, leaf] false)).value
    ∃ z, (w.fill Sample.schema none (x.document Sample.schema).lookup).value.result = .ok () ∧
      (w.fill Sample.schema none (x.document Sample.schema).lookup).value.wrapper.contents? = some z ∧
      z.exposed Sample.schema = x.exposed Sample.schema := by
  intro leaf x w
  have hleaf : WellTyped Sample.schema leaf := Sample.wellTyped_nodeOf "leaf" 7 [] true (by simp) (by simp)
  have hx : WellTyped Sample.schema x :=
    Sample.wellTyped_nodeOf "root" _ _ true (by simp [leaf, Sample.nodeOf, Value.ty]) (by simpa using hleaf)
  have hold : WellTyped Sample.schema (Sample.nodeOf "old" 1 [[9]] [leaf, leaf] false) :=
    Sample.wellTyped_nodeOf "old" _ _ false (by simp [leaf, Sample.nodeOf, Value.ty]) (by simpa using hleaf)
  have hnil : x.NoNil Sample.schema :=
    Sample.noNil_nodeOf "root" _ _ true (by simpa using Sample.noNil_nodeOf "leaf" 7 [] true (by simp))
  exact Wrapper.fill_document (.own hold) Sample.documentable_node hx rfl hnil rfl rfl

end DynAssign
