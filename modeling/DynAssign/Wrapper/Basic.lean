/-
Wrappers: a handle on one location and what is known of its type.

A wrapper is built for a declared type. Its descriptor is that of the type at the end of the chain, so pointers are
settled once: a writable wrapper allocates the nil pointers on the chain when it is built, a read-only one goes through
those that are there. The place says where the contents are:
- `located` has the contents at hand and remembers the storage around them, as it was when the wrapper was built;
- `owned` has the whole storage and finds the contents in it at each access;
- `shared` can be read only;
- `absent` has nothing, because the wrapper is unbound or a pointer of a read-only location is nil.
-/
import DynAssign.Value.Convert
import DynAssign.Value.Show

namespace DynAssign

inductive Place where
  | absent
  | shared (contents : Value)
  | located (around contents : Value)
  | owned (storage : Value)

namespace Place

/-- the contents at the end of the chain -/
def contents? : Place → Option Value
  | absent => none
  | shared v | located _ v => some v
  | owned st => some st.chainEnd

/-- the contents, if they can be written -/
def target? : Place → Option Value
  | located _ v => some v
  | owned st => some st.chainEnd
  | absent | shared _ => none

/-- new contents written at the end of the chain; a place that cannot be written stays as it is -/
def put (p : Place) (v : Value) : Place :=
  match p with
  | located around _ => located around v
  | owned st => owned (st.setChainEnd v)
  | p => p

/-- the value of the declared type, chain and contents, of a place that can be written -/
def storage? : Place → Option Value
  | located around v => some (around.setChainEnd v)
  | owned st => some st
  | absent | shared _ => none

theorem target?_put {p : Place} {old v : Value} (hp : p.target? = some old) (hv : v.isPointer = false) :
    (p.put v).target? = some v := by
  cases p <;> simp_all [target?, put, Value.chainEnd_setChainEnd]

theorem storage?_put {p : Place} {st : Value} (hs : p.storage? = some st) (ht : p.target? = some st.chainEnd)
    (hst : st.IsSettled) (v : Value) : (p.put v).storage? = some (st.setChainEnd v) := by
  cases p with
  | located around old =>
    cases hs
    have hold : old.isPointer = false := by
      rw [Option.some.inj ht]
      exact hst
    simp [put, storage?, Value.setChainEnd_setChainEnd around hold]
  | owned st => cases hs; rfl
  | absent => simp [target?] at ht
  | shared v => simp [target?] at ht

theorem put_put (p : Place) {v : Value} (hv : v.isPointer = false) (x : Value) : (p.put v).put x = p.put x := by
  cases p <;> simp [put, Value.setChainEnd_setChainEnd _ hv]

theorem put_target {p : Place} {v : Value} (ht : p.target? = some v) (hv : v.isPointer = false) : p.put v = p := by
  cases p <;> simp_all [target?, put]
  subst ht
  exact Value.setChainEnd_chainEnd hv

end Place

structure Wrapper where
  /-- the descriptor of the resolved type -/
  descriptor : Descriptor
  /-- the descriptor of the declared element type of a container -/
  elemDescriptor : Option Descriptor
  /-- the declared type, none for the unbound wrapper -/
  declared : Option Ty
  writable : Bool
  place : Place

namespace Wrapper

/-! ## Construction -/

/-- the wrapper that is bound to no location -/
def unbound : Wrapper := ⟨.empty, none, none, false, .absent⟩

/-- a place with the descriptors of its declared type -/
def bind (S : Schema) (declared : Ty) (writable : Bool) (place : Place) : Wrapper :=
  let d := S.descriptor declared
  ⟨d, d.elemType.map S.descriptor, some declared, writable, place⟩

/-- a writable location whose nil pointers are allocated already -/
def settled (S : Schema) (v : Value) : Wrapper := bind S v.ty true (.located v v.chainEnd)

/-- a writable location; its nil pointers are allocated -/
def locate (S : Schema) (v : Value) : Traced Wrapper := settled S <$> v.allocate S

/-- storage of the wrapper's own; its nil pointers are allocated -/
def own (S : Schema) (v : Value) : Traced Wrapper := (fun st => bind S st.ty true (.owned st)) <$> v.allocate S

/-- a location that must not be written -/
def readOnly (S : Schema) (v : Value) : Wrapper :=
  bind S v.ty false (match v.content? with
    | some u => .shared u
    | none => .absent)

@[simp] theorem descriptor_own (S : Schema) (v : Value) : (own S v).value.descriptor = S.descriptor v.ty := by
  simp [own, bind]

/-! ## Inspection -/

def isUnbound (w : Wrapper) : Bool := w.declared.isNone

/-- the current contents -/
def contents? (w : Wrapper) : Option Value := w.place.contents?

/-- the concrete contents, if they are of this type -/
def read? (w : Wrapper) (t : Ty) : Option Value := (w.contents?.map Value.concrete).filter (·.ty = t)

/-- the storage of a writable wrapper as it stands now -/
def storage? (w : Wrapper) : Option Value := w.place.storage?

/-- the storage that the wrapper owns -/
def ownStorage? (w : Wrapper) : Option Value :=
  match w.place with
  | .owned st => some st
  | _ => none

/-- the wrapper with new contents -/
def put (w : Wrapper) (v : Value) : Wrapper := { w with place := w.place.put v }

@[simp] theorem descriptor_put (w : Wrapper) (v : Value) : (w.put v).descriptor = w.descriptor := rfl

/-- the name of the declared type, as faults give it -/
def declaredName (w : Wrapper) : String := (w.declared.map Ty.fullName).getD "nil"

/-- a list whose elements are records, pointers of the element type aside -/
def holdsRecords (w : Wrapper) : Bool := w.descriptor.isSlice && (w.elemDescriptor.map Descriptor.isRecord).getD false

/-- the text that shows a wrapper for inspection -/
def shown (w : Wrapper) : String :=
  "Value \x7b type: " ++ quoted w.declaredName ++ ", kind: " ++ w.descriptor.kind.name ++
    ", can_write: " ++ (if w.writable then "true" else "false") ++
    ", value: " ++ (match w.contents? with
      | some v => "Some(" ++ v.shown ++ ")"
      | none => "None") ++ " \x7d"

end Wrapper

/-- what an operation that writes leaves: its outcome, and the wrapper afterwards, which may have changed even if the
outcome is a fault -/
abbrev Outcome := Traced (Except Fault Unit × Wrapper)

namespace Outcome

def ok (w : Wrapper) : Outcome := pure (.ok (), w)

def fault (e : Fault) (w : Wrapper) : Outcome := pure (.error e, w)

end Outcome

end DynAssign
