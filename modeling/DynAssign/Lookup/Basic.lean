/-
Lookups: sources of answers that are asked by key.

A lookup is a function from keys to answers. An answer is nothing, a value, a nested lookup, or several nested lookups;
answers nest to a finite depth on every path.
-/
import DynAssign.Value.Show

namespace DynAssign

/-- what a lookup answers to one key -/
inductive Answer where
  | nothing
  | value (v : Value)
  | nested (lookup : String → Answer)
  | several (lookups : List (String → Answer))

/-- a source of answers, asked by key -/
abbrev Lookup := String → Answer

/-- Induction on answers: what holds of an answer whenever it holds of all that the lookups in it answer, holds of every
answer. -/
@[elab_as_elim]
theorem Answer.nestedInduction {motive : Answer → Prop} (nothing : motive .nothing) (value : ∀ v, motive (.value v))
    (nested : ∀ l : Lookup, (∀ key, motive (l key)) → motive (.nested l))
    (several : ∀ ls : List Lookup, (∀ l ∈ ls, ∀ key, motive (l key)) → motive (.several ls)) (a : Answer) :
    motive a := by
  have cons (l : Lookup) (ls : List Lookup) (ih : ∀ key, motive (l key)) (ihs : ∀ l ∈ ls, ∀ key, motive (l key)) :
      ∀ l' ∈ l :: ls, ∀ key, motive (l' key) := by
    rw [List.forall_mem_cons]
    exact ⟨ih, ihs⟩
  have nil : ∀ l ∈ ([] : List Lookup), ∀ key, motive (l key) := by simp
  exact @Answer.rec motive (fun ls => ∀ l ∈ ls, ∀ key, motive (l key)) nothing value nested several nil cons a

namespace Answer

/-- the word for the kind of an answer -/
def kind : Answer → String
  | nothing => "nil"
  | value _ => "value"
  | nested _ => "getter"
  | several _ => "getters"

/-- the text that shows an answer for inspection -/
def shown : Answer → String
  | nothing => "Nil"
  | value v => "Value(" ++ v.shown ++ ")"
  | nested _ => "Getter(..)"
  | several ls => "Getters(len=" ++ toString ls.length ++ ")"

end Answer

namespace Lookup

/-- nothing under any key -/
def empty : Lookup := fun _ => .nothing

/-- answers by key, nothing under the other keys; the last answer given for a key counts -/
def ofEntries (entries : List (String × Answer)) : Lookup := fun key => (entries.reverse.lookup key).getD .nothing

/-- each key in upper case, letters outside ASCII as they are -/
def upper : Lookup := fun key => .value (.scalar (.string key.toUpper))

/-- the number of bytes of each key -/
def byteLength : Lookup := fun key => .value (.scalar (.ofInt ⟨false, .size⟩ key.utf8ByteSize))

end Lookup

end DynAssign
