/-
Writable wrappers and the storage behind them.

`Holds S st w` says what a writable wrapper `w` is once its storage is known to be `st`: the descriptors are those of
the storage's type, no pointer on the chain of the storage is nil, and what the wrapper shows and writes is the end of
that chain. The two writable places, a location and storage of the wrapper's own, differ in what they remember. They
do not differ in what they hold, so a statement over `Holds` covers both.

Main statement: new contents of the same type are new contents of the storage (`Holds.put`).
-/
import DynAssign.Value.Typing
import DynAssign.Fill

namespace DynAssign

/-- a writable wrapper on a storage whose pointers are allocated -/
structure Holds (S : Schema) (st : Value) (w : Wrapper) : Prop where
  settled : st.IsSettled
  declared : w.declared = some st.ty
  descriptor : w.descriptor = S.descriptor st.ty
  elemDescriptor : w.elemDescriptor = (S.descriptor st.ty).elemType.map S.descriptor
  writable : w.writable = true
  target : w.place.target? = some st.chainEnd
  storage : w.place.storage? = some st

namespace Holds

variable {S : Schema} {st : Value} {w : Wrapper}

/-! ## Construction -/

theorem bind {place : Place} (hst : st.IsSettled) (ht : place.target? = some st.chainEnd)
    (hs : place.storage? = some st) : Holds S st (.bind S st.ty true place) :=
  ⟨hst, rfl, rfl, rfl, rfl, ht, hs⟩

/-- the wrapper on a location whose pointers are allocated already -/
theorem of_settled (S : Schema) (hst : st.IsSettled) : Holds S st (.settled S st) :=
  bind hst rfl (by rw [Place.storage?, Value.setChainEnd_chainEnd hst])

theorem locate (S : Schema) (v : Value) : Holds S (v.allocate S).value (Wrapper.locate S v).value :=
  of_settled S (Value.isSettled_allocate S v)

theorem own (S : Schema) (v : Value) : Holds S (v.allocate S).value (Wrapper.own S v).value :=
  bind (Value.isSettled_allocate S v) rfl rfl

/-! ## What is known of the wrapper -/

theorem isUnbound (h : Holds S st w) : w.isUnbound = false := by simp [Wrapper.isUnbound, h.declared]

theorem ty_chainEnd (h : Holds S st w) : st.chainEnd.ty = st.ty.resolved := h.settled.ty_chainEnd

theorem isRecord_iff (h : Holds S st w) : w.descriptor.isRecord = true ↔ ∃ name, st.ty.resolved = .record name := by
  rw [h.descriptor, Schema.isRecord_iff]

theorem isRecord_eq_false (h : Holds S st w) (hno : ∀ name, st.ty.resolved ≠ .record name) :
    w.descriptor.isRecord = false := by
  rw [Bool.eq_false_iff, Ne, h.isRecord_iff]
  rintro ⟨name, hname⟩
  exact hno name hname

theorem exists_record (h : Holds S st w) {name : String} (hname : st.ty.resolved = .record name) :
    ∃ vs, st.chainEnd = .record name vs :=
  Value.eq_record_of_ty (h.ty_chainEnd.trans hname)

theorem exists_list (h : Holds S st w) {e : Ty} (he : st.ty.resolved = .slice e) : ∃ xs, st.chainEnd = .list e xs :=
  Value.eq_list_of_ty (h.ty_chainEnd.trans he)

theorem resolved_of_chainEnd (h : Holds S st w) {v : Value} (hc : st.chainEnd = v) : st.ty.resolved = v.ty := by
  rw [← h.ty_chainEnd, hc]

theorem contents (h : Holds S st w) : w.contents? = some st.chainEnd := by
  have ht := h.target
  unfold Wrapper.contents?
  cases hp : w.place <;> simp_all [Place.target?, Place.contents?]

/-! ## Writing -/

theorem put (h : Holds S st w) {x : Value} (hx : x.ty = st.ty.resolved) : Holds S (st.setChainEnd x) (w.put x) := by
  have hp : x.isPointer = false := Value.isPointer_of_ty hx
  have hty : (st.setChainEnd x).ty = st.ty := Value.ty_setChainEnd hx
  refine ⟨Value.isSettled_setChainEnd st hp, ?_, ?_, ?_, h.writable, ?_, ?_⟩
  · rw [hty]; exact h.declared
  · rw [hty]; exact h.descriptor
  · rw [hty]; exact h.elemDescriptor
  · rw [Value.chainEnd_setChainEnd st hp]
    exact Place.target?_put h.target hp
  · exact Place.storage?_put h.storage h.target h.settled x

theorem contents_put (h : Holds S st w) {x : Value} (hx : x.ty = st.ty.resolved) : (w.put x).contents? = some x := by
  rw [(h.put hx).contents, Value.chainEnd_setChainEnd st (Value.isPointer_of_ty hx)]

theorem put_contents (h : Holds S st w) : w.put st.chainEnd = w := by
  rw [Wrapper.put, Place.put_target h.target h.settled]

end Holds

theorem Wrapper.put_put (w : Wrapper) {v : Value} (hv : v.isPointer = false) (x : Value) :
    (w.put v).put x = w.put x := by
  simp [put, Place.put_put _ hv]

end DynAssign
