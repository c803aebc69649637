/-
Operations that write the contents of a wrapper: resetting, assignment, appending.

- `reset` writes the zero value over the contents, and `assign` starts with it. What `assign` writes after that is found
  in the source rule by rule. A list takes elements that were built in storage of their own, by assigning to each; any
  other destination takes the last element of a list, by assigning that instead.
- `append` builds all its elements before it extends the list, and extends it element by element.
- `freshElement` is a zero element in storage of its own, `pushElement` puts one at the end of the list as it is.

`Value.convert` says what an assignment leaves without a wrapper.
-/
import DynAssign.Wrapper.Basic

namespace DynAssign

namespace Wrapper

/-- the fault of a write through a wrapper that cannot write -/
def notAssignable (w : Wrapper) : Fault := .notAssignable w.declaredName

/-- the zero value of the resolved type written over the contents -/
def reset (S : Schema) (w : Wrapper) : Outcome :=
  if w.isUnbound then .fault .nilReceiver w
  else match w.place.target? with
    | none => .fault w.notAssignable w
    | some v => .ok (w.put (.zero S v.ty))

/-- a zero element of a container, in storage of its own -/
def freshElement (S : Schema) (w : Wrapper) : Attempt Fault Wrapper :=
  if w.isUnbound then throw .nilReceiver
  else match w.descriptor.elemType with
    | some t => ExceptT.lift (own S (.zero S t))
    | none => throw (.unsupported "new_elem" w.declaredName)

/-- values put at the end of the list one after another, up to the first that is not of the element type -/
def pushAll (w : Wrapper) (built : List Value) : Except Fault Unit × Wrapper :=
  match w.place.target? with
  | none => (.error w.notAssignable, w)
  | some v => match v.pushAll built with
    | none => (.error (.unsupported "append" w.declaredName), w)
    | some (r, v) => (r, w.put v)

/-- an element with storage of its own put at the end of the list as it is -/
def pushElement (w elem : Wrapper) : Except Fault Unit × Wrapper :=
  match elem.ownStorage? with
  | none => (.error .nilReceiver, w)
  | some x => w.pushAll [x]

/-! ## Assignment -/

theorem sizeOf_elemType_freshElement {S : Schema} {w elem : Wrapper} (h : (w.freshElement S).run.value = .ok elem) :
    sizeOf elem.descriptor.elemType < sizeOf w.descriptor.elemType := by
  unfold freshElement at h
  split at h
  · cases h
  · split at h
    · rename_i t ht
      cases h
      have hle := S.sizeOf_elemType_le t
      rw [descriptor_own, Value.ty_zero, ht]
      simp only [Option.some.sizeOf_spec]
      omega
    · cases h

mutual

/-- a source assigned to the contents -/
def assign (S : Schema) (w : Wrapper) (src : Value) : Outcome :=
  if w.isUnbound then .fault .nilReceiver w
  else match w.place.target? with
    | none => .fault w.notAssignable w
    | some v =>
      let zero := Value.zero S v.ty
      let w := w.put zero
      let s := src.concrete
      if S.isVoid s.ty then .ok w
      else if w.descriptor.isSlice then match _h : s.content? with
        | none => .ok w
        | some u => appendAll S w u.asItems
      else match zero.copyOver? s with
        | some r => .ok (w.put r)
        | none => match _h : s.content? with
          | none => .ok w
          | some u => match _hu : u.items? with
            | some xs => match _hx : xs.getLast? with
              | none => .ok w
              | some x => assign S w x
            | none => match zero.copyOver? u with
              | some r => .ok (w.put r)
              | none => match u.coerce v.ty with
                | .ok r => .ok (w.put r)
                | .error e => .fault e w
termination_by (sizeOf src, sizeOf w.descriptor.elemType, 2)
decreasing_by
  · have h1 := Value.totalSize_asItems_le u
    have h2 := Value.sizeOf_content?_le _h
    have h3 : sizeOf s ≤ sizeOf src := Value.sizeOf_concrete_le src
    exact Prod.Lex.right' _ (by omega) (Prod.Lex.right _ (by decide))
  · have h1 := Value.sizeOf_getLast?_lt _hu _hx
    have h2 := Value.sizeOf_content?_le _h
    have h3 : sizeOf s ≤ sizeOf src := Value.sizeOf_concrete_le src
    exact Prod.Lex.left _ _ (by omega)

/-- items built into elements and put at the end of the list, all of them or none -/
def appendAll (S : Schema) (w : Wrapper) (items : List Value) : Outcome :=
  if !w.writable then .fault w.notAssignable w
  else do
    match ← (buildAll S w items 0).run with
    | .error e => Outcome.fault e w
    | .ok built => pure (w.pushAll built)
termination_by (Value.totalSize items, sizeOf w.descriptor.elemType, 1)

/-- items assigned to fresh elements: what the elements hold then, or the first fault, put at its place -/
def buildAll (S : Schema) (w : Wrapper) (items : List Value) (i : Nat) : Attempt Fault (List Value) :=
  match items with
  | [] => pure []
  | item :: rest => do
    let fresh := (w.freshElement S).run
    Attempt.report fresh.log
    match _h : fresh.value with
    | .error e => throw e
    | .ok elem =>
      match ← ExceptT.lift (assign S elem item) with
      | (.error e, _) => throw (.inElement i e)
      | (.ok (), elem) => do
        let built ← buildAll S w rest (i + 1)
        pure (elem.ownStorage?.toList ++ built)
termination_by (Value.totalSize items, sizeOf w.descriptor.elemType, 0)
decreasing_by
  · exact Prod.Lex.right' _ (by simp [Value.totalSize]) (Prod.Lex.left _ _ (sizeOf_elemType_freshElement _h))
  · exact Prod.Lex.left _ _ (by have := Value.sizeOf_pos item; simp [Value.totalSize]; omega)

end

/-- items converted into elements and put at the end of the list -/
def append (S : Schema) (w : Wrapper) (items : List Value) : Outcome :=
  if w.isUnbound then .fault .nilReceiver w
  else if !w.descriptor.isSlice then .fault (.unsupported "append" w.declaredName) w
  else w.appendAll S items

end Wrapper

end DynAssign
