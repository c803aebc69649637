/-
Values that know their type.

A value carries the declared types that cannot be read off its contents: of the elements of a list, of a nil pointer's
pointee, of a map's keys and elements. So `Value.ty` is a function of the value alone, and no value is read without its
type. A record holds all its fields in declaration order, hidden ones included. A map holds its entries in ascending
order of keys; the library only copies maps as a whole.

`Value.zero` is the zero value of a type. A nil pointer is the zero of an optional type, so the recursion follows boxes
and inlined records only, and a schema ranks those.
-/
import DynAssign.Scalar.Convert
import DynAssign.Schema.Basic

namespace DynAssign

inductive Value where
  | scalar (s : Scalar)
  | literal (s : String)
  | unit
  /-- a dynamic slot and what it holds -/
  | any (v : Value)
  | sealed (name : String) (n : Nat)
  | list (elem : Ty) (items : List Value)
  | map (kind : MapKind) (key : ScalarKind) (elem : Ty) (entries : List (Scalar × Value))
  /-- an optional pointer that is nil -/
  | nil (pointee : Ty)
  /-- an optional pointer and what it points to -/
  | ptr (v : Value)
  | box (v : Value)
  | record (name : String) (fields : List Value)
deriving Inhabited

namespace Value

/-- the declared type of a location that holds the value -/
def ty : Value → Ty
  | scalar s => .scalar s.kind
  | literal _ => .literal
  | unit => .unit
  | any _ => .any
  | sealed name _ => .sealed name
  | list e _ => .slice e
  | map kind k e _ => .map kind k e
  | nil t => .option t
  | ptr v => .option v.ty
  | box v => .box v.ty
  | record name _ => .record name

/-- one level of indirection, nil or not -/
def isPointer (v : Value) : Bool := v.ty.isPointer

/-- the zero value of a type -/
def zero (S : Schema) : Ty → Value
  | .scalar k => scalar (.zero k)
  | .literal => literal ""
  | .unit => unit
  | .any => any unit
  | .sealed name => sealed name 0
  | .slice e => list e []
  | .map kind k e => map kind k e []
  | .option t => nil t
  | .box t => box (zero S t)
  | .record name => record name ((S.fields name).attach.map fun ⟨f, _⟩ => zero S f.ty)
termination_by t => ((t.inlined?.map (S.rank · + 1)).getD 0, sizeOf t)
decreasing_by
  · simp_wf
    exact Prod.Lex.right _ (by omega)
  · rename_i hf
    apply Prod.Lex.left
    cases hi : f.ty.inlined? with
    | none => simp [Ty.inlined?]
    | some inner =>
      have := S.rank_lt name f hf inner (by simp [hi])
      simp [Ty.inlined?]
      omega

/-- an entry put at its key's place in a map's entries, over an older entry of the key -/
def insertEntry (key : Scalar) (v : Value) : List (Scalar × Value) → List (Scalar × Value)
  | [] => [(key, v)]
  | (k, x) :: es =>
    if key.before k then (key, v) :: (k, x) :: es
    else if k.before key then (k, x) :: insertEntry key v es
    else (key, v) :: es

/-- a map with these entries, the last one of a key counting -/
def mapOf (kind : MapKind) (key : ScalarKind) (elem : Ty) (entries : List (Scalar × Value)) : Value :=
  map kind key elem (entries.foldl (fun es (k, v) => insertEntry k v es) [])

theorem eq_record_of_ty {v : Value} {name : String} (h : v.ty = .record name) : ∃ vs, v = record name vs := by
  cases v with
  | record name' vs =>
    cases h
    exact ⟨vs, rfl⟩
  | _ => cases h

theorem eq_list_of_ty {v : Value} {e : Ty} (h : v.ty = .slice e) : ∃ xs, v = list e xs := by
  cases v with
  | list e' xs =>
    cases h
    exact ⟨xs, rfl⟩
  | _ => cases h

@[simp] theorem ty_zero (S : Schema) (t : Ty) : (zero S t).ty = t := by
  induction t <;> simp_all [zero, ty]

end Value

end DynAssign
