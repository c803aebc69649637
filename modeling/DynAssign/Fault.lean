/-
What can go wrong.

A fault is a cause, possibly inside context: the field or the element that was being assigned. `Fault.message` is its
one-line text, `Fault.cause` the cause without context, `Fault.fieldNames` the names of the fields around it.
-/
import DynAssign.Text.Quoted

namespace DynAssign

inductive Fault where
  /-- the wrapper is bound to no location -/
  | nilReceiver
  /-- the wrapper cannot write -/
  | notAssignable (typeName : String)
  /-- types of this classification do not offer the operation -/
  | unsupported (op typeName : String)
  /-- a value does not convert into the destination -/
  | coercion (value target : String)
  /-- the answer for a field has a shape that the field cannot take -/
  | shapeMismatch (key field got : String)
  /-- an element is not of the container's element type -/
  | elementType (expected got : String)
  /-- a field index past the last visible field -/
  | indexOutOfRange (index len : Nat) (typeName : String)
  | invalidPath (text : String)
  | inField (field : String) (source : Fault)
  | inElement (index : Nat) (source : Fault)
deriving DecidableEq, Repr

namespace Fault

/-- the word for the outermost constructor -/
def name : Fault → String
  | nilReceiver => "NilReceiver"
  | notAssignable _ => "NotAssignable"
  | unsupported _ _ => "Unsupported"
  | coercion _ _ => "Coercion"
  | shapeMismatch _ _ _ => "ShapeMismatch"
  | elementType _ _ => "ElementType"
  | indexOutOfRange _ _ _ => "IndexOutOfRange"
  | invalidPath _ => "InvalidPath"
  | inField _ _ => "Field"
  | inElement _ _ => "Element"

/-- the text of a fault, context first -/
def message : Fault → String
  | nilReceiver => "nil receiver"
  | notAssignable t => "value of type " ++ t ++ " is not assignable; wrap a mutable reference"
  | unsupported op t => op ++ " is unsupported for type " ++ t
  | coercion v t => "cannot coerce " ++ v ++ " into " ++ t
  | shapeMismatch key field got =>
    "getter returned " ++ got ++ " for key " ++ quoted key ++ " and field " ++ field ++ " is not fillable"
  | elementType expected got => "element type mismatch: expected " ++ expected ++ ", got " ++ got
  | indexOutOfRange i len t =>
    "index " ++ toString i ++ " out of range for " ++ t ++ " with " ++ toString len ++ " fields"
  | invalidPath text => "invalid path: " ++ text
  | inField field source => "field " ++ field ++ ": " ++ source.message
  | inElement i source => "element " ++ toString i ++ ": " ++ source.message

/-- the cause, with the context taken off -/
def cause : Fault → Fault
  | inField _ source | inElement _ source => source.cause
  | e => e

/-- the names of the fields around the cause, outermost first -/
def fieldNames : Fault → List String
  | inField field source => field :: source.fieldNames
  | inElement _ source => source.fieldNames
  | _ => []

end Fault

end DynAssign
