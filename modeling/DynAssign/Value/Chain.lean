/-
Chains: the layers of indirection in front of a value.

- `Value.concrete` goes through dynamic slots only, `Value.chainEnd` through pointers only; `Value.content?` goes
  through both and finds nothing at a nil pointer.
- `Value.allocate` gives every nil pointer on the way to the end of the chain a fresh value, and reports each one.
- `Value.setChainEnd` writes at the end of the chain and keeps the chain.

Main statements: allocation keeps the type (`ty_allocate`) and leaves a chain whose end is of the resolved type
(`ty_chainEnd_allocate`); what is written at the end of a chain is found there (`chainEnd_setChainEnd`), and writing
back what is there changes nothing (`setChainEnd_chainEnd`).
-/
import DynAssign.Trace
import DynAssign.Value.Basic

namespace DynAssign

/-- the optional pointers on the chain of a type, outermost first -/
def Ty.optionals : Ty → List Ty
  | option t => option t :: t.optionals
  | box t => t.optionals
  | _ => []

namespace Value

/-! ## Reading -/

/-- the concrete value inside dynamic slots -/
def concrete : Value → Value
  | any v => v.concrete
  | v => v

/-- the value behind the pointers that are not nil -/
def chainEnd : Value → Value
  | ptr v | box v => v.chainEnd
  | v => v

/-- the value behind pointers and dynamic slots, none if a pointer is nil -/
def content? : Value → Option Value
  | nil _ => none
  | ptr v | box v | any v => v.content?
  | v => some v

theorem sizeOf_concrete_le (v : Value) : sizeOf v.concrete ≤ sizeOf v := by
  fun_induction concrete v with
  | case1 v ih => simp; omega
  | case2 => exact Nat.le_refl _

theorem sizeOf_chainEnd_le (v : Value) : sizeOf v.chainEnd ≤ sizeOf v := by
  fun_induction chainEnd v with
  | case1 v ih => simp; omega
  | case2 v ih => simp; omega
  | case3 => exact Nat.le_refl _

theorem sizeOf_content?_le {v u : Value} (h : v.content? = some u) : sizeOf u ≤ sizeOf v := by
  fun_induction content? v <;> simp_all <;> omega

@[simp] theorem concrete_concrete (v : Value) : v.concrete.concrete = v.concrete := by
  fun_induction concrete v with
  | case1 v ih => exact ih
  | case2 v h => cases v <;> simp_all [concrete]

/-! ## Allocating -/

/-- the layers of a pointer type put around a value of its resolved type -/
def layered : Ty → Value → Value
  | .option t, v => ptr (layered t v)
  | .box t, v => box (layered t v)
  | _, v => v

/-- the zero value of a type's resolved type, behind the layers of the type -/
def fresh (S : Schema) (t : Ty) : Value := layered t (zero S t.resolved)

/-- the value with every nil pointer on its chain allocated -/
def allocate (S : Schema) : Value → Traced Value
  | nil t => do
    Traced.report ((Ty.option t).optionals.map .allocated)
    pure (ptr (fresh S t))
  | ptr v => ptr <$> v.allocate S
  | box v => box <$> v.allocate S
  | v => pure v

theorem ty_layered {t : Ty} {v : Value} (h : v.ty = t.resolved) : (layered t v).ty = t := by
  induction t <;> simp_all [layered, ty, Ty.resolved]

theorem chainEnd_layered {t : Ty} {v : Value} (h : v.isPointer = false) : (layered t v).chainEnd = v := by
  induction t <;> simp_all [layered, chainEnd] <;> cases v <;> simp_all [chainEnd, isPointer, ty, Ty.isPointer]

@[simp] theorem ty_fresh (S : Schema) (t : Ty) : (fresh S t).ty = t := ty_layered (ty_zero S _)

@[simp] theorem chainEnd_fresh (S : Schema) (t : Ty) : (fresh S t).chainEnd = zero S t.resolved :=
  chainEnd_layered (by simp [isPointer])

theorem allocate_zero (S : Schema) (t : Ty) :
    (zero S t).allocate S = ⟨fresh S t, t.optionals.map .allocated⟩ := by
  induction t with
  | box t ih =>
    rw [zero, allocate, ih]
    ext1 <;> simp [fresh, layered, Ty.optionals, Ty.resolved]
  | _ => ext1 <;> simp [zero, allocate, fresh, layered, Ty.optionals, Ty.resolved]

@[simp] theorem ty_allocate (S : Schema) (v : Value) : (v.allocate S).value.ty = v.ty := by
  fun_induction allocate S v <;> simp_all [ty]

theorem ty_chainEnd_allocate (S : Schema) (v : Value) : (v.allocate S).value.chainEnd.ty = v.ty.resolved := by
  fun_induction allocate S v <;> simp_all [ty, chainEnd, Ty.resolved]
  cases ‹Value› <;> simp_all [ty, Ty.resolved]

/-! ## Writing -/

/-- the value with the end of its chain replaced; a nil pointer is allocated around the new end -/
def setChainEnd : Value → Value → Value
  | nil t, x => ptr (layered t x)
  | ptr v, x => ptr (v.setChainEnd x)
  | box v, x => box (v.setChainEnd x)
  | _, x => x

theorem setChainEnd_eq_layered (v x : Value) : v.setChainEnd x = layered v.ty x := by
  fun_induction setChainEnd v x with
  | case1 t x => rfl
  | case2 v x ih => rw [ih, ty, layered]
  | case3 v x ih => rw [ih, ty, layered]
  | case4 v x h1 h2 h3 => cases v <;> simp_all [ty, layered]

theorem chainEnd_setChainEnd (v : Value) {x : Value} (h : x.isPointer = false) : (v.setChainEnd x).chainEnd = x := by
  rw [setChainEnd_eq_layered, chainEnd_layered h]

theorem ty_setChainEnd {v x : Value} (h : x.ty = v.ty.resolved) : (v.setChainEnd x).ty = v.ty := by
  rw [setChainEnd_eq_layered, ty_layered h]

theorem setChainEnd_layered {t : Ty} {x : Value} (hx : x.isPointer = false) (y : Value) :
    (layered t x).setChainEnd y = layered t y := by
  induction t <;> simp_all [layered, setChainEnd] <;> cases x <;> simp_all [setChainEnd, isPointer, ty, Ty.isPointer]

/-- of two values written at the end of a chain the later one counts -/
theorem setChainEnd_setChainEnd (v : Value) {x : Value} (hx : x.isPointer = false) (y : Value) :
    (v.setChainEnd x).setChainEnd y = v.setChainEnd y := by
  rw [setChainEnd_eq_layered v x, setChainEnd_layered hx, setChainEnd_eq_layered]

/-- no pointer on the chain is nil -/
def IsSettled (v : Value) : Prop := v.chainEnd.isPointer = false

instance (v : Value) : Decidable v.IsSettled := inferInstanceAs (Decidable (_ = _))

theorem isPointer_of_ty {v : Value} {t : Ty} (h : v.ty = t.resolved) : v.isPointer = false := by
  rw [isPointer, h, Ty.resolved_isPointer]

theorem chainEnd_of_not_isPointer {v : Value} (h : v.isPointer = false) : v.chainEnd = v := by
  cases v <;> simp_all [chainEnd, isPointer, ty, Ty.isPointer]

theorem isSettled_of_not_isPointer {v : Value} (h : v.isPointer = false) : v.IsSettled := by
  rw [IsSettled, chainEnd_of_not_isPointer h, h]

theorem isSettled_layered {t : Ty} {v : Value} (h : v.isPointer = false) : (layered t v).IsSettled := by
  rw [IsSettled, chainEnd_layered h, h]

theorem IsSettled.chainEnd_ne_nil {v : Value} (h : v.IsSettled) (t : Ty) : v.chainEnd ≠ nil t := by
  intro hnil
  rw [IsSettled, hnil] at h
  cases h

theorem IsSettled.ty_chainEnd {v : Value} (h : v.IsSettled) : v.chainEnd.ty = v.ty.resolved := by
  unfold IsSettled at h
  fun_induction chainEnd v <;> simp_all [ty, Ty.resolved]
  rw [isPointer] at h
  rw [Ty.resolved_of_not_isPointer h]

theorem isSettled_allocate (S : Schema) (v : Value) : (v.allocate S).value.IsSettled :=
  isPointer_of_ty (ty_chainEnd_allocate S v)

theorem IsSettled.allocate {v : Value} (h : v.IsSettled) (S : Schema) : v.allocate S = pure v := by
  unfold IsSettled at h
  fun_induction Value.allocate S v <;> simp_all [chainEnd]
  simp [isPointer, ty, Ty.isPointer] at h

theorem isSettled_setChainEnd (v : Value) {x : Value} (hx : x.isPointer = false) : (v.setChainEnd x).IsSettled := by
  rw [IsSettled, chainEnd_setChainEnd v hx, hx]

theorem setChainEnd_chainEnd {v : Value} (h : v.chainEnd.isPointer = false) : v.setChainEnd v.chainEnd = v := by
  fun_induction chainEnd v <;> simp_all [setChainEnd]
  cases ‹Value› <;> simp_all [setChainEnd, isPointer, ty, Ty.isPointer]

/-- a settled value is its layers around the end of its chain -/
theorem IsSettled.layered_chainEnd {v : Value} (h : v.IsSettled) : layered v.ty v.chainEnd = v := by
  rw [← setChainEnd_eq_layered, setChainEnd_chainEnd h]

end Value

end DynAssign
