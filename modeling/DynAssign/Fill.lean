/-
Filling a record from a lookup.

Every visible field takes part, or those that carry an annotation, and each is looked up by its name, or by its
annotation. `Wrapper.visit` is the loop over the fields: it hands one field after another to a rule, stops at the first
fault, and writes the fields back. `Answer.feed` is the rule of one field:
- a nested lookup fills a record, or replaces a list of records by one element filled from it;
- several lookups replace a list of records by one element each; a record takes the last of them;
- a value is assigned, and nothing is assigned as nil.
-/
import DynAssign.Lookup.Basic
import DynAssign.Wrapper.Assign
import DynAssign.Wrapper.Field

namespace DynAssign

/-- what filling leaves: the keys that were asked for, the outcome, and the wrapper afterwards -/
structure Filled where
  asked : List String
  result : Except Fault Unit
  wrapper : Wrapper

/-- what filling leaves of a wrapper, the keys aside -/
def Filled.outcome (f : Filled) : Except Fault Unit × Wrapper := (f.result, f.wrapper)

namespace Wrapper

/-- The rule applied to one field after another up to the first fault: the keys of the fields that it was applied to,
the outcome, and all fields afterwards. -/
def visitEach (rule : Field → Outcome) : List Field → Traced (List String × Except Fault Unit × List Field)
  | [] => pure ([], .ok (), [])
  | f :: fs => do
    let (r, w) ← rule f
    let f' := { f with wrapper := w }
    match r with
    | .error e => pure ([f.key], .error (.inField f.decl.name e), f' :: fs)
    | .ok () => do
      let (asked, r, fs') ← visitEach rule fs
      pure (f.key :: asked, r, f' :: fs')

/-- the rule applied to the fields of a record that take part: all of them, or those with an annotation -/
def visit (S : Schema) (tag : Option String) (rule : Field → Outcome) (w : Wrapper) : Traced Filled :=
  if w.isUnbound then pure ⟨[], .error .nilReceiver, w⟩
  else if !w.descriptor.isRecord then
    pure ⟨[], .error (.unsupported (if tag.isSome then "fill_by_tag" else "fill") w.declaredName), w⟩
  else do
    let (fs, w) ← w.fieldsFor S tag
    let (asked, r, fs) ← visitEach rule fs
    pure ⟨asked, r, fs.foldl putField w⟩

/-- a rule that reports the answer before it is applied -/
def asking (l : Lookup) (rule : Field → Outcome) (f : Field) : Outcome := do
  Traced.report [.filling f.decl.name f.key (l f.key).kind]
  rule f

/-- a fresh element built by a rule and put at the end of the list; the list stays as it is on a fault -/
def pushBuilt (S : Schema) (build : Wrapper → Traced Filled) (w : Wrapper) : Outcome := do
  match ← (w.freshElement S).run with
  | .error e => Outcome.fault e w
  | .ok elem => do
    let filled ← build elem
    match filled.result with
    | .error e => Outcome.fault e w
    | .ok () => pure (w.pushElement filled.wrapper)

end Wrapper

namespace Answer

open Wrapper

mutual

/-- what a field's wrapper becomes when the field takes an answer -/
def feed (S : Schema) (tag : Option String) : Answer → Field → Outcome
  | nothing, f => f.wrapper.assign S .unit
  | value v, f => f.wrapper.assign S v
  | nested l, f =>
    let build := visit S tag (asking l fun f => feed S tag (l f.key) f)
    if f.wrapper.descriptor.isRecord then Filled.outcome <$> build f.wrapper
    else if f.wrapper.holdsRecords then do
      match ← f.wrapper.reset S with
      | (.error e, w) => Outcome.fault e w
      | (.ok (), w) => pushBuilt S build w
    else Outcome.fault (.shapeMismatch f.key f.decl.name "a getter") f.wrapper
  | several ls, f =>
    if f.wrapper.holdsRecords then do
      match ← f.wrapper.reset S with
      | (.error e, w) => Outcome.fault e w
      | (.ok (), w) => feedEach S tag ls 0 w
    else if f.wrapper.descriptor.isRecord then feedLast S tag ls f.wrapper
    else Outcome.fault (.shapeMismatch f.key f.decl.name "a list of getters") f.wrapper

/-- one element per lookup put at the end of a list of records, up to the first fault -/
def feedEach (S : Schema) (tag : Option String) : List (String → Answer) → Nat → Wrapper → Outcome
  | [], _, w => Outcome.ok w
  | l :: ls, i, w => do
    match ← pushBuilt S (visit S tag (asking l fun f => feed S tag (l f.key) f)) w with
    | (.error e, w) => Outcome.fault (.inElement i e) w
    | (.ok (), w) => feedEach S tag ls (i + 1) w

/-- a record filled from the last of several lookups -/
def feedLast (S : Schema) (tag : Option String) : List (String → Answer) → Wrapper → Outcome
  | [], w => Outcome.ok w
  | [l], w => Filled.outcome <$> visit S tag (asking l fun f => feed S tag (l f.key) f) w
  | _ :: l :: ls, w => feedLast S tag (l :: ls) w

end

end Answer

namespace Wrapper

/-- a record filled from a lookup: all visible fields by name, or those with an annotation by its value -/
def fill (S : Schema) (tag : Option String) (w : Wrapper) (l : Lookup) : Traced Filled :=
  visit S tag (asking l fun f => (l f.key).feed S tag f) w

end Wrapper

end DynAssign
