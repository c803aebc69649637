/-
A store of descriptors that builds each one once.

Entries are found under the declared type, so a pointer type and its pointee have entries of their own even where the
two descriptors are equal. A request answers with the place of the entry: two answers are the same shared descriptor iff
the places are equal.
-/
import DynAssign.Value.Chain

namespace DynAssign

/-- the types described so far with their descriptors, in the order of the first request -/
structure Cache where
  entries : List (Ty × Descriptor)
deriving Repr

namespace Cache

def empty : Cache := ⟨[]⟩

/-- number of declared types described so far -/
def size (c : Cache) : Nat := c.entries.length

def isEmpty (c : Cache) : Bool := c.entries.isEmpty

/-- the descriptor at a place -/
def get? (c : Cache) (place : Nat) : Option Descriptor := (c.entries[place]?).map (·.2)

/-- the place of a type's descriptor, which is built and reported if there is none yet -/
def find (S : Schema) (c : Cache) (t : Ty) : Traced (Nat × Cache) :=
  match c.entries.findIdx? (·.1 = t) with
  | some place => pure (place, c)
  | none => do
    Traced.report [.described t (S.descriptor t)]
    pure (c.size, ⟨c.entries ++ [(t, S.descriptor t)]⟩)

/-- the place of the descriptor of a value's concrete type, dynamic slots aside -/
def findOf (S : Schema) (c : Cache) (v : Value) : Traced (Nat × Cache) := c.find S v.concrete.ty

end Cache

end DynAssign
