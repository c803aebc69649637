/-
Wrappers on the fields of a record.

`Wrapper.fields` wraps every visible field of the record at hand. The fields of a writable record are writable and have
their nil pointers allocated, all of them at once, so the record itself may change; `putField` writes the storage of a
field's wrapper back into the record. `taggedFields` keeps the fields that carry an annotation.

`Wrapper.fieldAt` wraps one field along a path of indexes, and `putFieldAt` writes it back. Only the fields on the path
have their pointers allocated, up to the point where the path fails.
-/
import DynAssign.Wrapper.Basic

namespace DynAssign

/-- a visible field of a record and a wrapper on it -/
structure Field where
  decl : VisibleField
  /-- the annotation that the field was found by -/
  tagValue : Option String
  wrapper : Wrapper

/-- the key that the field is looked up by: its annotation, or its name -/
def Field.key (f : Field) : String := f.tagValue.getD f.decl.name

/-! ## All fields -/

namespace Value

/-- the values of some declared fields with the pointers of the visible ones allocated -/
def allocateVisible (S : Schema) : List FieldDecl → List Value → Traced (List Value)
  | f :: fs, v :: vs => do
    let v ← if f.visible then v.allocate S else pure v
    let vs ← allocateVisible S fs vs
    pure (v :: vs)
  | _, vs => pure vs

/-- the record with the pointers of its visible fields allocated; any other value as it is -/
def allocateFields (S : Schema) : Value → Traced Value
  | record name vs => record name <$> allocateVisible S (S.fields name) vs
  | v => pure v

end Value

namespace Wrapper

/-- wrappers on the fields of a record, made from their values by one rule -/
def fieldsOf (S : Schema) (v : Value) (wrap : Value → Wrapper) : List Field :=
  ((v.fields? S).getD []).map fun (f, x) => ⟨f, none, wrap x⟩

/-- wrappers on all visible fields, and the wrapper with their pointers allocated -/
def fields (S : Schema) (w : Wrapper) : Traced (List Field × Wrapper) :=
  if !w.descriptor.isRecord then pure ([], w)
  else match w.place.target? with
    | some v => do
      let v ← v.allocateFields S
      pure (fieldsOf S v (settled S), w.put v)
    | none => pure ((w.contents?.map fun v => fieldsOf S v (readOnly S)).getD [], w)

/-- the fields among these that carry an annotation, with its value -/
def tagged (key : String) (fs : List Field) : List Field :=
  fs.filterMap fun f => (f.decl.tags.lookup key).map fun value => { f with tagValue := some value }

/-- wrappers on the visible fields that carry an annotation; the pointers of all visible fields are allocated -/
def taggedFields (S : Schema) (key : String) (w : Wrapper) : Traced (List Field × Wrapper) := do
  let (fs, w) ← w.fields S
  pure (tagged key fs, w)

/-- wrappers on the fields that take part in something: all visible ones, or those that carry an annotation -/
def fieldsFor (S : Schema) (tag : Option String) (w : Wrapper) : Traced (List Field × Wrapper) :=
  match tag with
  | none => w.fields S
  | some key => w.taggedFields S key

/-- the record with what is stored through a field's wrapper written back -/
def putField (w : Wrapper) (f : Field) : Wrapper :=
  match f.wrapper.storage?, w.place.target? with
  | some x, some v => w.put (v.setPosition f.decl.position x)
  | _, _ => w

end Wrapper

/-! ## One field along a path -/

namespace Value

/-- The value found in one field after another, starting at a value that is not a pointer, and that value with the
pointers on the way allocated. What is found is the storage of the last field, layers of indirection included. -/
def descend (S : Schema) (v : Value) (i : Nat) (path : List Nat) : Traced (Except Fault Value × Value) :=
  match v.fields? S with
  | none =>
    pure (.error (.invalidPath ("cannot descend into field " ++ toString i ++ " of " ++ v.ty.fullName ++
      ", which is not a struct")), v)
  | some fs => match fs[i]? with
    | none => pure (.error (.indexOutOfRange i fs.length v.ty.fullName), v)
    | some (f, x) => do
      let x ← x.allocate S
      match path with
      | [] => pure (.ok x, v.setPosition f.position x)
      | j :: rest => do
        let (r, y) ← descend S x.chainEnd j rest
        pure (r, v.setPosition f.position (x.setChainEnd y))

/-- the value with what is stored in the field at a path replaced -/
def putAt (S : Schema) (v x : Value) : List Nat → Value
  | [] => v
  | [i] => match v.field? S i with
    | none => v
    | some (f, _) => v.setPosition f.position x
  | i :: path => match v.field? S i with
    | none => v
    | some (f, y) => v.setPosition f.position (y.setChainEnd (putAt S y.chainEnd x path))

end Value

namespace Wrapper

/-- a wrapper on the field at a path of indexes, and the wrapper with the pointers on the way allocated -/
def fieldAt (S : Schema) (w : Wrapper) (path : List Nat) : Traced (Except Fault Wrapper × Wrapper) :=
  if w.isUnbound then pure (.error .nilReceiver, w)
  else match path with
    | [] => pure (.error (.invalidPath "empty index path"), w)
    | i :: rest => match w.place.target? with
      | none => pure (.error (.notAssignable w.declaredName), w)
      | some v => do
        let (r, v) ← v.descend S i rest
        pure (r.map (settled S), w.put v)

/-- the wrapper with what is stored through the wrapper on the field at a path written back -/
def putFieldAt (S : Schema) (w : Wrapper) (path : List Nat) (sub : Wrapper) : Wrapper :=
  match sub.storage?, w.place.target? with
  | some x, some v => w.put (v.putAt S x path)
  | _, _ => w

end Wrapper

end DynAssign
