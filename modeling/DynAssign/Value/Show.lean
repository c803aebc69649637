/-
The text that shows a value for inspection.

Scalars are tagged with their kind, lists show their elements, pointers show that they are not nil, dynamic slots show
what they hold. Values that cannot be looked into show the name of their type.
-/
import DynAssign.Value.Access

namespace DynAssign

namespace Value

mutual

def shown : Value → String
  | scalar s => s.tagged
  | literal s => (Scalar.string s).tagged
  | unit => "nil"
  | any v => v.shown
  | sealed name n => (sealed name n).ty.fullName
  | list _ xs => "[" ++ ", ".intercalate (shownAll xs) ++ "]"
  | map kind k e es => (map kind k e es).ty.fullName
  | nil _ => "nil"
  | ptr v | box v => "Some(" ++ v.shown ++ ")"
  | record name fs => (record name fs).ty.fullName

def shownAll : List Value → List String
  | [] => []
  | v :: vs => v.shown :: shownAll vs

end

end Value

end DynAssign
