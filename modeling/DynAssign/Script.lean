/-
Scripts: sequences of operations on one wrapper, as data.

A script is a list of steps. A step that leads to another wrapper, of an element or of a field, carries the steps to
run on that wrapper. `Script.run` binds a wrapper to an initial value in one of four ways, runs the steps, and gives a
report for each: the reply to the step, and the contents that the wrapper shows after it.
-/
import DynAssign.Fill

namespace DynAssign

inductive Step where
  | look
  | assign (src : Value)
  | reset
  | append (items : List Value)
  /-- steps on a fresh element, which is then appended as a value if asked for -/
  | freshElement (steps : List Step) (appended : Bool)
  | fields (tag : Option String)
  /-- steps on one of the fields, all of them or those with an annotation -/
  | field (tag : Option String) (i : Nat) (steps : List Step)
  /-- steps on the field at a path of indexes -/
  | fieldAt (path : List Nat) (steps : List Step)
  /-- a fill, and whether to tell the keys that were asked for -/
  | fill (tag : Option String) (lookup : Lookup) (told : Bool)
  | describe
  | describeField (name : String)
  | read (t : Ty)
  | inspect

/-- the reply to a step -/
inductive Reply where
  | outcome (r : Except Fault Unit)
  | element (reports : List (Reply × Option Value)) (inner : Option Value) (appended : Option (Except Fault Unit))
  | fields (fs : List Field)
  | inside (reports : List (Reply × Option Value))
  /-- there is no field of that number among so many -/
  | noField (count : Nat)
  | filled (r : Except Fault Unit) (asked : Option (List String))
  | described (descriptor : Descriptor) (elem : Option Descriptor) (declared : Option Ty) (writable : Bool)
  | field (f : Option VisibleField)
  | read (v : Option Value)
  | text (s : String)

/-- the reply to a step, and the contents of the wrapper after it -/
abbrev Report := Reply × Option Value

namespace Script

/-- an operation's outcome as a reply -/
def replyOf (o : Outcome) : Traced (Reply × Wrapper) := (fun (r, w) => (.outcome r, w)) <$> o

mutual

/-- one step on a wrapper -/
def exec (S : Schema) : Step → Wrapper → Traced (Reply × Wrapper)
  | .look, w => pure (.outcome (.ok ()), w)
  | .assign src, w => replyOf (w.assign S src)
  | .reset, w => replyOf (w.reset S)
  | .append items, w => replyOf (w.append S items)
  | .freshElement steps appended, w => do
    match ← (w.freshElement S).run with
    | .error e => pure (.outcome (.error e), w)
    | .ok elem => do
      let (reports, elem) ← execAll S steps elem
      let inner := elem.ownStorage?
      if appended then do
        let (r, w) ← w.append S inner.toList
        pure (.element reports inner (some r), w)
      else pure (.element reports inner none, w)
  | .fields tag, w => do
    let (fs, w) ← w.fieldsFor S tag
    pure (.fields fs, w)
  | .field tag i steps, w => do
    let (fs, w) ← w.fieldsFor S tag
    match fs[i]? with
    | none => pure (.noField fs.length, w)
    | some f => do
      let (reports, sub) ← execAll S steps f.wrapper
      pure (.inside reports, w.putField { f with wrapper := sub })
  | .fieldAt path steps, w => do
    match ← w.fieldAt S path with
    | (.error e, w) => pure (.outcome (.error e), w)
    | (.ok sub, w) => do
      let (reports, sub) ← execAll S steps sub
      pure (.inside reports, w.putFieldAt S path sub)
  | .fill tag l told, w => do
    let filled ← w.fill S tag l
    pure (.filled filled.result (if told then some filled.asked else none), filled.wrapper)
  | .describe, w => pure (.described w.descriptor w.elemDescriptor w.declared w.writable, w)
  | .describeField name, w => pure (.field (w.descriptor.field? name), w)
  | .read t, w => pure (.read (w.read? t), w)
  | .inspect, w => pure (.text w.shown, w)

/-- steps in order, each with the contents after it -/
def execAll (S : Schema) : List Step → Wrapper → Traced (List Report × Wrapper)
  | [], w => pure ([], w)
  | s :: ss, w => do
    let (reply, w) ← exec S s w
    let (reports, w') ← execAll S ss w
    pure ((reply, w.contents?) :: reports, w')

end

/-- how a wrapper is bound to an initial value -/
inductive Mode where
  | located
  | owned
  | readOnly
  | unbound
deriving DecidableEq, Repr

/-- the wrapper that a mode makes -/
def Mode.wrap (S : Schema) (init : Value) : Mode → Traced Wrapper
  | located => Wrapper.locate S init
  | owned => Wrapper.own S init
  | readOnly => pure (Wrapper.readOnly S init)
  | unbound => pure Wrapper.unbound

/-- the reports of a script and the storage at its end; a location that is not writable stays as it is -/
def run (S : Schema) (mode : Mode) (init : Value) (steps : List Step) : Traced (List Report × Value) := do
  let w ← mode.wrap S init
  let (reports, w) ← execAll S steps w
  pure (reports, w.storage?.getD init)

end Script

end DynAssign
