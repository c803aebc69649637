/-
Documents as lookups.

A document is a tree of nulls, truth values, numbers, texts, arrays and objects. An object answers with its entries: a
null is nothing, an object is a nested lookup, an array of objects is several lookups, and everything else is a value.
An array that is empty or holds something other than an object is a list of dynamic slots, in which objects and nulls
are nil.
-/
import DynAssign.Lookup.Basic
import DynAssign.Lookup.Numeral

namespace DynAssign

-- powers are the ones of the core library, whatever else is imported
attribute [local instance (high)] instPowNat

inductive Document where
  | null
  | bool (b : Bool)
  | number (n : Number)
  | string (s : String)
  | array (items : List Document)
  | object (entries : List (String × Document))
deriving Inhabited

/-- a document's number as a scalar: integers from 2^63 on are unsigned -/
def Number.scalar : Number → Scalar
  | integer n => .ofInt ⟨n < 2 ^ (63 : Nat), .w64⟩ n
  | real x => .float .double x

namespace Document

def isObject : Document → Bool
  | object _ => true
  | _ => false

mutual

/-- a document as a value; objects and nulls are nil -/
def stored : Document → Value
  | null | object _ => .unit
  | bool b => .scalar (.bool b)
  | number n => .scalar n.scalar
  | string s => .scalar (.string s)
  | array items => .list .any (storedAll items)

def storedAll : List Document → List Value
  | [] => []
  | d :: ds => .any d.stored :: storedAll ds

end

mutual

/-- the answer of a lookup that finds the document under a key -/
def answer : Document → Answer
  | null => .nothing
  | object entries => .nested (entry entries)
  | array items => if items ≠ [] ∧ items.all isObject then .several (lookups items) else .value (array items).stored
  | d => .value d.stored

/-- the answer of an object with these entries; the last entry of a key counts -/
def entry : List (String × Document) → Lookup
  | [], _ => .nothing
  | (k, d) :: entries, key => if k = key ∧ !entries.any (·.1 = key) then d.answer else entry entries key

/-- the lookups of the objects among the items of an array -/
def lookups : List Document → List Lookup
  | [] => []
  | object entries :: items => entry entries :: lookups items
  | _ :: items => lookups items

end

/-- a document as a lookup; only objects have answers -/
def lookup : Document → Lookup
  | object entries => entry entries
  | _ => .empty

end Document

end DynAssign
