/-
One level of a value's structure, for reading and for writing.

A view names what can be done with a value before any pointer is followed: `Value.view` for reading, `Value.writeView`
for writing in place. Fixed text reads as a scalar and cannot be written; maps, pointers, dynamic slots and sealed
values are written as a whole or not at all.
-/
import DynAssign.Value.Access

namespace DynAssign

inductive View where
  | scalar (s : Scalar)
  | list (items : List Value)
  | map
  | record (fields : List Value)
  /-- a pointer, and what it points to unless it is nil -/
  | pointer (pointee : Option Value)
  | dynamic (contents : Value)
  | nil
  | sealed

inductive WriteView where
  | scalar (s : Scalar)
  | list (length : Nat)
  | record (fields : List Value)
  | other

namespace Value

def view (S : Schema) : Value → View
  | scalar s => .scalar s
  | literal s => .scalar (.string s)
  | unit => .nil
  | any v => .dynamic v
  | sealed _ _ => .sealed
  | list _ xs => .list xs
  | map _ _ _ _ => .map
  | nil _ => .pointer none
  | ptr v | box v => .pointer (some v)
  | record name fs => .record ((((record name fs).fields? S).getD []).map (·.2))

def writeView (S : Schema) : Value → WriteView
  | scalar s => .scalar s
  | list _ xs => .list xs.length
  | record name fs => .record ((((record name fs).fields? S).getD []).map (·.2))
  | _ => .other

/-- Up to so many layers of indirection gone through, nil pointers on the way allocated: what is reached, and the value
afterwards. The step past the last layer stays where it is. -/
def enter (S : Schema) : Nat → Value → Traced (Value × Value)
  | n + 1, nil t => do
    Traced.report [.allocated (.option t)]
    let (reached, v) ← enter S n (zero S t)
    pure (reached, ptr v)
  | n + 1, ptr v => do
    let (reached, v) ← enter S n v
    pure (reached, ptr v)
  | n + 1, box v => do
    let (reached, v) ← enter S n v
    pure (reached, box v)
  | _, v => pure (v, v)

/-- text stored at the end of the chain if a text stands there; the pointers on the way are allocated in any case -/
def storeText (S : Schema) (v : Value) (s : String) : Traced (Bool × Value) := do
  let v ← v.allocate S
  match v.chainEnd with
  | scalar (.string _) => pure (true, v.setChainEnd (scalar (.string s)))
  | _ => pure (false, v)

end Value

end DynAssign
