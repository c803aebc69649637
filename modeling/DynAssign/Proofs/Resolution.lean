/-
The three walks through the layers in front of a value.

- `Value.content?` reads through pointers and dynamic slots, and finds nothing at a nil pointer.
- `Value.chainEnd` reads through pointers only, and stops at a nil pointer.
- `Value.allocate` gives each nil pointer that it comes to a zero value, and goes on in that.

The reading walks are repeated steps into the next layer, `Value.Opens` and `Value.Points`. The allocating walk is
repeated `Value.enter`: a zero value may begin with a nil pointer of its own, so the number of its steps is read off the
declared type and not off the value (`Value.enter_eq_iff`). What it changes is said one nil pointer at a time, by
`Allocations`.

Main statement, on every value: `Value.walks_agree`.
-/
import DynAssign.Proofs.Built
import DynAssign.Proofs.ReadOnly
import DynAssign.Value.View
import Mathlib.Logic.Relation

namespace DynAssign

open Relation (ReflTransGen)

namespace Ty

/-- how many pointers stand in front of the end of a type's chain -/
def pointers : Ty → Nat
  | option t | box t => t.pointers + 1
  | _ => 0

theorem pointers_eq_zero_iff {t : Ty} : t.pointers = 0 ↔ t.isPointer = false := by
  cases t <;> simp [pointers, isPointer]

end Ty

namespace Value

variable {S : Schema} {v w : Value} {n : Nat}

/-! ## Reading, one layer at a time -/

/-- a pointer that is not nil leads to a value -/
def Points (S : Schema) (v w : Value) : Prop := v.view S = .pointer (some w)

/-- a pointer that is not nil or a dynamic slot leads to a value -/
inductive Opens (S : Schema) (v w : Value) : Prop where
  | pointer (h : v.Points S w)
  | slot (h : v.view S = .dynamic w)

/-- a walk of such steps comes to a nil pointer -/
def MeetsNil (S : Schema) (step : Value → Value → Prop) (v : Value) : Prop :=
  ∃ w, ReflTransGen step v w ∧ w.view S = .pointer none

/-- neither a pointer nor a dynamic slot -/
def IsBare (v : Value) : Prop := v.isPointer = false ∧ v.ty ≠ .any

theorem view_eq_nil_iff : v.view S = .pointer none ↔ ∃ t, v = .nil t := by
  cases v <;> simp [view]

theorem points_iff : v.Points S w ↔ v = .ptr w ∨ v = .box w := by
  cases v <;> simp [Points, view]

/-! ### Through dynamic slots as well -/

theorem content?_of_opens (h : v.Opens S w) : v.content? = w.content? := by
  cases h with
  | pointer h => rcases points_iff.1 h with rfl | rfl <;> rw [content?]
  | slot h => cases v <;> simp_all [view, content?]

theorem content?_of_reaches (h : ReflTransGen (Opens S) v w) : v.content? = w.content? := by
  induction h with
  | refl => rfl
  | tail _ hstep ih => rw [ih, content?_of_opens hstep]

theorem IsBare.content? (h : v.IsBare) : v.content? = some v := by
  obtain ⟨hpointer, hany⟩ := h
  cases v <;> simp_all [Value.content?, isPointer, ty, Ty.isPointer]

/-- the walk comes to an end: at a nil pointer, or behind all layers -/
theorem exists_reaches (S : Schema) (v : Value) :
    ∃ w, ReflTransGen (Opens S) v w ∧ (w.view S = .pointer none ∨ w.IsBare) := by
  fun_induction Value.content? v with
  | case1 t => exact ⟨_, .refl, .inl rfl⟩
  | case2 v ih =>
    obtain ⟨w, hw, hend⟩ := ih
    exact ⟨w, .head (.pointer rfl) hw, hend⟩
  | case3 v ih =>
    obtain ⟨w, hw, hend⟩ := ih
    exact ⟨w, .head (.pointer rfl) hw, hend⟩
  | case4 v ih =>
    obtain ⟨w, hw, hend⟩ := ih
    exact ⟨w, .head (.slot rfl) hw, hend⟩
  | case5 v hnil hptr hbox hany =>
    refine ⟨v, .refl, .inr ?_⟩
    cases v <;> simp_all [IsBare, isPointer, ty, Ty.isPointer]

theorem content?_eq_none_iff_meetsNil (S : Schema) (v : Value) : v.content? = none ↔ v.MeetsNil S (Opens S) := by
  constructor
  · intro hnone
    obtain ⟨w, hw, hnil | hbare⟩ := exists_reaches S v
    · exact ⟨w, hw, hnil⟩
    · rw [content?_of_reaches hw, hbare.content?] at hnone
      cases hnone
  · rintro ⟨w, hw, hnil⟩
    obtain ⟨t, rfl⟩ := view_eq_nil_iff.1 hnil
    exact content?_of_reaches hw

/-- what is found is the value behind all layers -/
theorem content?_eq_some_iff (S : Schema) : v.content? = some w ↔ ReflTransGen (Opens S) v w ∧ w.IsBare := by
  constructor
  · intro hsome
    obtain ⟨u, hu, hend⟩ := exists_reaches S v
    rw [content?_of_reaches hu] at hsome
    rcases hend with hnil | hbare
    · obtain ⟨t, rfl⟩ := view_eq_nil_iff.1 hnil
      cases hsome
    · rw [hbare.content?] at hsome
      cases hsome
      exact ⟨hu, hbare⟩
  · rintro ⟨hw, hbare⟩
    rw [content?_of_reaches hw, hbare.content?]

/-! ### Through pointers only -/

theorem reaches_chainEnd (S : Schema) (v : Value) : ReflTransGen (Points S) v v.chainEnd := by
  fun_induction chainEnd v with
  | case1 v ih => exact .head rfl ih
  | case2 v ih => exact .head rfl ih
  | case3 => exact .refl

theorem chainEnd_of_reaches (h : ReflTransGen (Points S) v w) : v.chainEnd = w.chainEnd := by
  induction h with
  | refl => rfl
  | tail _ hstep ih =>
    rw [ih]
    rcases points_iff.1 hstep with rfl | rfl <;> rw [chainEnd]

theorem isSettled_or_nil (v : Value) : v.IsSettled ∨ ∃ t, v.chainEnd = .nil t := by
  unfold IsSettled
  fun_induction chainEnd v with
  | case1 v ih => exact ih
  | case2 v ih => exact ih
  | case3 v hptr hbox => cases v <;> simp_all [isPointer, ty, Ty.isPointer]

theorem isSettled_iff_not_meetsNil (S : Schema) (v : Value) : v.IsSettled ↔ ¬ v.MeetsNil S (Points S) := by
  constructor
  · rintro hsettled ⟨w, hw, hnil⟩
    obtain ⟨t, rfl⟩ := view_eq_nil_iff.1 hnil
    exact hsettled.chainEnd_ne_nil t (chainEnd_of_reaches hw)
  · intro hno
    rcases isSettled_or_nil v with hsettled | ⟨t, ht⟩
    · exact hsettled
    · exact absurd ⟨v.chainEnd, reaches_chainEnd S v, view_eq_nil_iff.2 ⟨t, ht⟩⟩ hno

/-! ## Allocating, one pointer at a time -/

theorem enter_zero (S : Schema) (v : Value) : v.enter S 0 = pure (v, v) := by
  cases v <;> rfl

theorem enter_of_not_isPointer (h : v.isPointer = false) (n : Nat) :
    v.enter S n = (fun w => (w.chainEnd, w)) <$> v.allocate S := by
  rw [(isSettled_of_not_isPointer h).allocate S, map_pure, chainEnd_of_not_isPointer h]
  cases n <;> cases v <;> simp_all [enter, isPointer, ty, Ty.isPointer]

/-- **As many steps as the type has pointers lead to the end of the chain, and no step leads on from there.** By
induction on the steps and not on the value: a nil pointer is followed by the zero value of its pointee. -/
theorem enter_of_le (h : v.ty.pointers ≤ n) : v.enter S n = (fun w => (w.chainEnd, w)) <$> v.allocate S := by
  induction n generalizing v with
  | zero => exact enter_of_not_isPointer (Ty.pointers_eq_zero_iff.1 (Nat.le_zero.1 h)) 0
  | succ n ih =>
    cases v with
    | nil t =>
      have hstep := ih (v := zero S t) (by simpa [ty, Ty.pointers] using h)
      rw [enter, hstep, allocate_zero, allocate]
      ext1 <;> simp [Ty.optionals, chainEnd]
    | ptr v =>
      have hstep := ih (v := v) (Nat.le_of_succ_le_succ h)
      rw [enter, hstep, allocate]
      ext1 <;> simp [chainEnd]
    | box v =>
      have hstep := ih (v := v) (Nat.le_of_succ_le_succ h)
      rw [enter, hstep, allocate]
      ext1 <;> simp [chainEnd]
    | _ => exact enter_of_not_isPointer rfl (n + 1)

/-- before that the walk stands at a pointer -/
theorem isPointer_enter_of_lt (h : n < v.ty.pointers) : (v.enter S n).value.1.isPointer = true := by
  induction n generalizing v with
  | zero =>
    have hne : v.ty.pointers ≠ 0 := Nat.ne_zero_of_lt h
    rw [ne_eq, Ty.pointers_eq_zero_iff, Bool.not_eq_false] at hne
    rwa [enter_zero, Traced.value_pure]
  | succ n ih =>
    cases v with
    | nil t => exact ih (v := zero S t) (by simpa [ty, Ty.pointers] using h)
    | ptr v => exact ih (Nat.lt_of_succ_lt_succ h)
    | box v => exact ih (Nat.lt_of_succ_lt_succ h)
    | _ => exact absurd h (Nat.not_lt_zero _)

/-- so the number of steps that the walk takes is that of the pointers in the type, whatever is nil -/
theorem enter_eq_iff (S : Schema) (v : Value) (n : Nat) :
    v.enter S n = (fun w => (w.chainEnd, w)) <$> v.allocate S ↔ v.ty.pointers ≤ n := by
  refine ⟨fun h => Nat.le_of_not_lt fun hlt => ?_, enter_of_le⟩
  have hpointer := isPointer_enter_of_lt (S := S) hlt
  rw [h, Traced.value_map, isSettled_allocate S v] at hpointer
  cases hpointer

end Value

/-- one nil pointer on the chain of a value, of the type given, points to a zero value afterwards; the layers in front
of it are the same -/
inductive Allocation (S : Schema) : Value → Ty → Value → Prop where
  | nil (t : Ty) : Allocation S (.nil t) (.option t) (.ptr (.zero S t))
  | ptr {v w : Value} {p : Ty} (h : Allocation S v p w) : Allocation S (.ptr v) p (.ptr w)
  | box {v w : Value} {p : Ty} (h : Allocation S v p w) : Allocation S (.box v) p (.box w)

/-- one allocation after another, with what is reported of them -/
inductive Allocations (S : Schema) : Value → List Event → Value → Prop where
  | done (v : Value) : Allocations S v [] v
  | next {u v w : Value} {p : Ty} {log : List Event} (h : Allocation S u p v) (hs : Allocations S v log w) :
    Allocations S u (.allocated p :: log) w

namespace Allocations

variable {S : Schema} {v w : Value} {log : List Event}

theorem ptr (h : Allocations S v log w) : Allocations S (.ptr v) log (.ptr w) := by
  induction h with
  | done v => exact .done _
  | next h _ ih => exact .next h.ptr ih

theorem box (h : Allocations S v log w) : Allocations S (.box v) log (.box w) := by
  induction h with
  | done v => exact .done _
  | next h _ ih => exact .next h.box ih

/-- a zero value is allocated along its whole type -/
theorem fresh (S : Schema) (t : Ty) : Allocations S (.zero S t) (t.optionals.map .allocated) (.fresh S t) := by
  induction t with
  | option t ih =>
    rw [Value.zero]
    exact .next (.nil t) ih.ptr
  | box t ih =>
    rw [Value.zero]
    exact ih.box
  | _ => exact .done _

/-- **Nothing but the nil pointers on the chain is changed by the allocating walk.** -/
theorem allocate (S : Schema) (v : Value) : Allocations S v (v.allocate S).log (v.allocate S).value := by
  fun_induction Value.allocate S v with
  | case1 t =>
    have hfresh := fresh S (.option t)
    rw [Value.zero] at hfresh
    rw [Traced.log_bind, Traced.log_report, Traced.log_pure, List.append_nil]
    exact hfresh
  | case2 v ih => simpa using ih.ptr
  | case3 v ih => simpa using ih.box
  | case4 v => exact .done v

end Allocations

/-! ## The walks agree -/

namespace Value

/-- where the allocating walk from a value ends, what it leaves of the value, and what it reports -/
structure Settles (S : Schema) (v e w : Value) (log : List Event) : Prop where
  /-- it has as many steps as the type has pointers -/
  steps : ∀ n, v.enter S n = ⟨(e, w), log⟩ ↔ v.ty.pointers ≤ n
  /-- it ends at the end of the declared chain -/
  isPointer_end : e.isPointer = false
  ty_end : e.ty = v.ty.resolved
  /-- it changes nothing but nil pointers that it comes to -/
  changes : Allocations S v log w
  /-- from what it left it comes to the same end, and changes nothing -/
  again : ∀ n, v.ty.pointers ≤ n → w.enter S n = ⟨(e, w), []⟩
  /-- nothing is allocated on a chain without a nil pointer -/
  untouched : ¬ v.MeetsNil S (Points S) → w = v ∧ log = []

theorem settles_allocate (S : Schema) (v : Value) :
    Settles S v (v.allocate S).value.chainEnd (v.allocate S).value (v.allocate S).log where
  steps n := by
    rw [← enter_eq_iff S v n]
    exact Eq.congr_right (by ext1 <;> simp)
  isPointer_end := isSettled_allocate S v
  ty_end := ty_chainEnd_allocate S v
  changes := .allocate S v
  again n hn := by
    rw [enter_of_le (by rwa [ty_allocate]), (isSettled_allocate S v).allocate S]
    rfl
  untouched hno := by
    rw [((isSettled_iff_not_meetsNil S v).2 hno).allocate S]
    exact ⟨rfl, rfl⟩

/-- **The three walks agree.** On every value:
- the reading walk finds nothing iff it meets a nil pointer, and otherwise the value behind all layers;
- the allocating walk ends at the end of the declared chain, changes nothing but nil pointers on the chain, and a second
  one changes nothing at all;
- afterwards the walk through pointers ends where it ended, and so does the reading walk, unless the end is a dynamic
  slot: both find what is there, and what is written there later. -/
theorem walks_agree (S : Schema) (v : Value) :
    (v.content? = none ↔ v.MeetsNil S (Opens S)) ∧
    (∀ u, v.content? = some u ↔ ReflTransGen (Opens S) v u ∧ u.IsBare) ∧
    ∃ e w log, v.allocate S = ⟨w, log⟩ ∧ Settles S v e w log ∧ w.chainEnd = e ∧
      (v.ty.resolved ≠ .any → w.content? = some e ∧
        ∀ u, u.ty = e.ty → (w.setChainEnd u).chainEnd = u ∧ (w.setChainEnd u).content? = some u) := by
  refine ⟨content?_eq_none_iff_meetsNil S v, fun u => content?_eq_some_iff S, ?_⟩
  refine ⟨_, _, _, rfl, settles_allocate S v, rfl, ?_⟩
  intro hany
  have hsettled := isSettled_allocate S v
  rw [← ty_allocate S v] at hany
  refine ⟨hsettled.content? hany, ?_⟩
  intro u hu
  rw [hsettled.ty_chainEnd] at hu
  have hpointer := isPointer_of_ty hu
  have hend := chainEnd_setChainEnd (v.allocate S).value hpointer
  have hcontent := (isSettled_setChainEnd (v.allocate S).value hpointer).content? (by rwa [ty_setChainEnd hu])
  rw [hend] at hcontent
  exact ⟨hend, hcontent⟩

/-- a byte behind three pointers, the outermost nil: the two that may be nil are allocated one after the other, and only
the third step comes to the byte -/
theorem walks_agree_byte :
    let v := nil (.box (.option Sample.byte))
    let zero := scalar (.ofInt ⟨false, .w8⟩ 0)
    let seven := scalar (.ofInt ⟨false, .w8⟩ 7)
    let w := ptr (box (ptr zero))
    let log : List Event := [.allocated v.ty, .allocated (.option Sample.byte)]
    v.content? = none ∧ v.MeetsNil Sample.schema (Opens Sample.schema) ∧ v.allocate Sample.schema = ⟨w, log⟩ ∧
      v.enter Sample.schema 3 = ⟨(zero, w), log⟩ ∧ v.enter Sample.schema 2 ≠ ⟨(zero, w), log⟩ ∧
      w.enter Sample.schema 3 = ⟨(zero, w), []⟩ ∧ v.ty.resolved ≠ .any ∧ w.content? = some zero ∧
      (ptr (box (ptr seven))).content? = some seven := by
  intro v zero seven w log
  obtain ⟨hnone, -, e, w', log', hallocate, hsettles, hend, hshown⟩ := walks_agree Sample.schema v
  have hrun : v.allocate Sample.schema = ⟨w, log⟩ := by cbv
  obtain ⟨rfl, rfl⟩ := Traced.mk.inj (hallocate.symm.trans hrun)
  obtain rfl : zero = e := hend
  have hany : v.ty.resolved ≠ .any := by decide
  obtain ⟨hzero, hwritten⟩ := hshown hany
  have hshort : v.enter Sample.schema 2 ≠ ⟨(zero, w), log⟩ := fun h => absurd ((hsettles.steps 2).1 h) (by decide)
  exact ⟨rfl, hnone.1 rfl, hrun, (hsettles.steps 3).2 (by decide), hshort, hsettles.again 3 (by decide), hany, hzero,
    (hwritten seven rfl).2⟩

end Value

end DynAssign
