/-
Access to the parts of a value that is not a pointer: its scalar, the elements of a list, the visible fields of a
record.

Every access is partial: it answers none where the value has no such part, and the callers decide what that means.
-/
import DynAssign.Fault
import DynAssign.Value.Chain

namespace DynAssign

namespace Value

/-- the scalar that a value shows; fixed text shows as text -/
def scalar? : Value → Option Scalar
  | scalar s => some s
  | literal s => some (.string s)
  | _ => none

/-- the elements of a list -/
def items? : Value → Option (List Value)
  | list _ xs => some xs
  | _ => none

/-- the visible fields of a record with their values -/
def fields? (S : Schema) : Value → Option (List (VisibleField × Value))
  | record name vs => some ((S.visible name).filterMap fun f => (vs[f.position]?).map (f, ·))
  | _ => none

/-- the visible field of an index with its value -/
def field? (S : Schema) (v : Value) (i : Nat) : Option (VisibleField × Value) := (v.fields? S).bind (·[i]?)

/-- the record with the field at a position replaced; any other value as it is -/
def setPosition (v : Value) (position : Nat) (x : Value) : Value :=
  match v with
  | record name vs => record name (vs.set position x)
  | v => v

/-- the list with a value at its end, which has to be of the element type -/
def push (v x : Value) : Option (Except Fault Value) :=
  match v with
  | list e xs => some (if x.ty = e then .ok (list e (xs ++ [x])) else .error (.elementType e.fullName x.ty.fullName))
  | _ => none

/-- values put at the end of the list one after another, up to the first that is not of the element type -/
def pushAll (v : Value) : List Value → Option (Except Fault Unit × Value)
  | [] => v.items?.map fun _ => (.ok (), v)
  | x :: xs => match v.push x with
    | none => none
    | some (.error e) => some (.error e, v)
    | some (.ok v) => v.pushAll xs

/-- A source written over a destination of its own type. A dynamic slot takes every source, without the slots around
the source itself. -/
def copyOver? (dst src : Value) : Option Value :=
  if dst.ty = .any then some (any src.concrete)
  else if src.ty = dst.ty then some src
  else none

@[simp] theorem ty_setPosition (v : Value) (position : Nat) (x : Value) : (v.setPosition position x).ty = v.ty := by
  cases v <;> rfl

end Value

end DynAssign
