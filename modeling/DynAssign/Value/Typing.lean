/-
Well-typed values: the elements of a list are of its element type, a record has a value for each declared field, and so
on all the way down.

A value carries its type, so `Value.ty` says what a value claims to be and `WellTyped` that its parts agree. Main
statements: the zero value of every type is well typed (`wellTyped_zero`), and allocation keeps a value well typed
(`wellTyped_allocate`).
-/
import DynAssign.Value.Chain

namespace DynAssign

/-- the parts of a value are of the types that the value claims for them -/
inductive WellTyped (S : Schema) : Value → Prop where
  | scalar (s : Scalar) : WellTyped S (.scalar s)
  | literal (s : String) : WellTyped S (.literal s)
  | unit : WellTyped S .unit
  | any {v : Value} (hv : WellTyped S v) : WellTyped S (.any v)
  | sealed (name : String) (n : Nat) : WellTyped S (.sealed name n)
  | list {e : Ty} {xs : List Value} (hty : ∀ x ∈ xs, x.ty = e) (hxs : ∀ x ∈ xs, WellTyped S x) :
    WellTyped S (.list e xs)
  | map {kind : MapKind} {k : ScalarKind} {e : Ty} {es : List (Scalar × Value)}
    (hkey : ∀ p ∈ es, p.1.kind = k) (hsorted : es.Pairwise (·.1.before ·.1)) (hty : ∀ p ∈ es, p.2.ty = e)
    (hes : ∀ p ∈ es, WellTyped S p.2) : WellTyped S (.map kind k e es)
  | nil (t : Ty) : WellTyped S (.nil t)
  | ptr {v : Value} (hv : WellTyped S v) : WellTyped S (.ptr v)
  | box {v : Value} (hv : WellTyped S v) : WellTyped S (.box v)
  | record {name : String} {vs : List Value} (hty : vs.map Value.ty = (S.fields name).map (·.ty))
    (hvs : ∀ v ∈ vs, WellTyped S v) : WellTyped S (.record name vs)

namespace WellTyped

variable {S : Schema}

@[simp] theorem scalar_iff {s : Scalar} : WellTyped S (.scalar s) ↔ True := ⟨fun _ => trivial, fun _ => .scalar s⟩

@[simp] theorem ptr_iff {v : Value} : WellTyped S (.ptr v) ↔ WellTyped S v :=
  ⟨fun h => by cases h; assumption, .ptr⟩

@[simp] theorem box_iff {v : Value} : WellTyped S (.box v) ↔ WellTyped S v :=
  ⟨fun h => by cases h; assumption, .box⟩

@[simp] theorem list_iff {e : Ty} {xs : List Value} :
    WellTyped S (.list e xs) ↔ ∀ x ∈ xs, x.ty = e ∧ WellTyped S x := by
  constructor
  · intro h
    cases h with
    | list hty hxs => exact fun x hx => ⟨hty x hx, hxs x hx⟩
  · intro h
    exact .list (fun x hx => (h x hx).1) fun x hx => (h x hx).2

@[simp] theorem record_iff {name : String} {vs : List Value} :
    WellTyped S (.record name vs) ↔ vs.map Value.ty = (S.fields name).map (·.ty) ∧ ∀ v ∈ vs, WellTyped S v := by
  constructor
  · intro h
    cases h with
    | record hty hvs => exact ⟨hty, hvs⟩
  · rintro ⟨hty, hvs⟩
    exact .record hty hvs

/-! ### The fields of a record -/

section

variable {name : String} {vs : List Value} {p : Nat} {d : FieldDecl} {x : Value}

theorem length_fields (h : WellTyped S (.record name vs)) : (S.fields name).length = vs.length := by
  have hlen := congrArg List.length (record_iff.1 h).1
  simpa using hlen.symm

theorem exists_field (h : WellTyped S (.record name vs)) (hd : (S.fields name)[p]? = some d) :
    ∃ x, vs[p]? = some x := by
  have hlt := (List.getElem?_eq_some_iff.1 hd).1
  rw [h.length_fields] at hlt
  exact ⟨vs[p], List.getElem?_eq_getElem hlt⟩

theorem ty_field (h : WellTyped S (.record name vs)) (hd : (S.fields name)[p]? = some d) (hx : vs[p]? = some x) :
    x.ty = d.ty := by
  have hp := congrArg (·[p]?) (record_iff.1 h).1
  simpa [hx, hd] using hp

theorem set_field {z : Value} (h : WellTyped S (.record name vs)) (hx : vs[p]? = some x) (hz : WellTyped S z)
    (hty : z.ty = x.ty) : WellTyped S (.record name (vs.set p z)) := by
  obtain ⟨htys, hvs⟩ := record_iff.1 h
  refine .record ?_ ?_
  · have hsame : (vs.map Value.ty)[p]? = some z.ty := by simp [hx, hty]
    obtain ⟨hlt, hget⟩ := List.getElem?_eq_some_iff.1 hsame
    rw [List.map_set, ← hget, List.set_getElem_self, htys]
  · intro v hv
    rcases List.mem_or_eq_of_mem_set hv with hv | rfl
    · exact hvs v hv
    · exact hz

end

end WellTyped

namespace Value

theorem wellTyped_zero (S : Schema) (t : Ty) : WellTyped S (zero S t) := by
  fun_induction zero S t with
  | case1 k => exact .scalar _
  | case2 => exact .literal _
  | case3 => exact .unit
  | case4 => exact .any .unit
  | case5 name => exact .sealed _ _
  | case6 e => exact .list (by simp) (by simp)
  | case7 kind k e => exact .map (by simp) (by simp) (by simp) (by simp)
  | case8 t => exact .nil t
  | case9 t ih => exact .box ih
  | case10 name ih =>
    refine .record ?_ ?_
    · simp
    · intro v hv
      obtain ⟨⟨f, hf⟩, -, rfl⟩ := List.mem_map.1 hv
      exact ih f hf

theorem wellTyped_layered {S : Schema} {v : Value} (t : Ty) (hv : WellTyped S v) : WellTyped S (layered t v) := by
  fun_induction layered t v with
  | case1 v t ih => exact .ptr (ih hv)
  | case2 v t ih => exact .box (ih hv)
  | case3 => exact hv

theorem wellTyped_fresh (S : Schema) (t : Ty) : WellTyped S (fresh S t) :=
  wellTyped_layered t (wellTyped_zero S _)

theorem wellTyped_allocate {S : Schema} {v : Value} (hv : WellTyped S v) : WellTyped S (v.allocate S).value := by
  induction v using allocate.induct with
  | case1 t => exact .ptr (wellTyped_fresh S t)
  | case2 v ih => exact .ptr (ih (WellTyped.ptr_iff.1 hv))
  | case3 v ih => exact .box (ih (WellTyped.box_iff.1 hv))
  | case4 v h1 h2 h3 => simpa [allocate] using hv

theorem wellTyped_chainEnd {S : Schema} {v : Value} (hv : WellTyped S v) : WellTyped S v.chainEnd := by
  fun_induction chainEnd v with
  | case1 v ih => exact ih (WellTyped.ptr_iff.1 hv)
  | case2 v ih => exact ih (WellTyped.box_iff.1 hv)
  | case3 => exact hv

theorem wellTyped_setChainEnd {S : Schema} {x : Value} (v : Value) (hx : WellTyped S x) :
    WellTyped S (v.setChainEnd x) := by
  rw [setChainEnd_eq_layered]
  exact wellTyped_layered v.ty hx

end Value

end DynAssign
