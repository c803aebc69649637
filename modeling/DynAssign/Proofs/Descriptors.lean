/-
Descriptors: what holds of each of them, and what layers of indirection do to them.

A description follows the pointers of a type: as long as the raw shape is a pointer, it goes on to the pointee, and it
classifies the shape that it ends at (`Schema.follow`). The loop ends, on every type, at the end of the chain
(`Schema.follow_eq`), so a stack of layers around a type changes nothing (`Schema.descriptor_behind`), and the end of
the chain is all that counts (`Schema.descriptor_eq_iff`).

- `Descriptor.WellFormed`: the parts of a descriptor fit its kind, whatever shape was classified.
- `Descriptor.Describes`: it says what a type is at the end of its chain.

Main statement, on every type and on every store that was asked for types: `Schema.descriptor_transparent`.
-/
import DynAssign.Proofs.Requests

namespace DynAssign

/-! ## Layers of indirection around a type -/

/-- a layer of indirection that is part of a declared type -/
inductive Indirection where
  /-- a pointer that may be nil -/
  | option
  | box
deriving DecidableEq, Repr

def Indirection.around : Indirection → Ty → Ty
  | option, t => .option t
  | box, t => .box t

namespace Ty

/-- a type behind a stack of layers, the outermost first -/
def behind (layers : List Indirection) (t : Ty) : Ty := layers.foldr Indirection.around t

theorem resolved_behind (layers : List Indirection) (t : Ty) : (t.behind layers).resolved = t.resolved := by
  induction layers with
  | nil => rfl
  | cons layer layers ih =>
    rw [← ih]
    cases layer <;> rfl

theorem exists_behind_resolved (t : Ty) : ∃ layers, t = t.resolved.behind layers := by
  induction t with
  | option t ih =>
    obtain ⟨layers, ht⟩ := ih
    exact ⟨.option :: layers, congrArg option ht⟩
  | box t ih =>
    obtain ⟨layers, ht⟩ := ih
    exact ⟨.box :: layers, congrArg box ht⟩
  | _ => exact ⟨[], rfl⟩

end Ty

/-! ## Following the pointers -/

namespace Schema

variable {S : Schema} {t u : Ty}

theorem shape_eq_pointer_iff : S.shape t = .pointer u ↔ t = .option u ∨ t = .box u := by
  cases t <;> simp [shape]

theorem sizeOf_pointee_lt (h : S.shape t = .pointer u) : sizeOf u < sizeOf t := by
  rcases shape_eq_pointer_iff.1 h with rfl | rfl <;> simp

/-- from a type whose shape is a pointer on to the pointee, until there is none: where that ends, and the shape there -/
def follow (S : Schema) (t : Ty) : Ty × Shape :=
  match _h : S.shape t with
  | .pointer u => S.follow u
  | shape => (t, shape)
termination_by sizeOf t
decreasing_by exact sizeOf_pointee_lt _h

/-- **Following the pointers ends at the end of the chain.** -/
theorem follow_eq (S : Schema) (t : Ty) : S.follow t = (t.resolved, S.shape t.resolved) := by
  fun_induction follow S t with
  | case1 t u h ih =>
    rw [ih]
    rcases shape_eq_pointer_iff.1 h with rfl | rfl <;> rfl
  | case2 t h =>
    have hpointer : t.isPointer = false := by
      cases t with
      | option u => exact absurd rfl (h u)
      | box u => exact absurd rfl (h u)
      | _ => rfl
    rw [Ty.resolved_of_not_isPointer hpointer]

theorem descriptor_eq_follow (S : Schema) (t : Ty) : S.descriptor t = .ofShape (S.follow t).1 (S.follow t).2 := by
  rw [follow_eq, descriptor]

end Schema

/-! ## What a descriptor says -/

namespace Descriptor

/-- the parts of a descriptor fit its kind -/
structure WellFormed (d : Descriptor) : Prop where
  scalar : d.scalar.isSome = true ↔ d.kind = .scalar
  elemType : d.elemType.isSome = true ↔ d.kind = .slice ∨ d.kind = .map
  fields : d.fields ≠ [] → d.kind = .record
  /-- the type is the end of a chain -/
  ty : ∀ u, d.ty = some u → u.isPointer = false
  /-- nothing is said of the untyped nil -/
  nil : d.ty = none → d = empty

/-- a descriptor says what a type is at the end of its chain -/
structure Describes (d : Descriptor) (t : Ty) : Prop extends WellFormed d where
  isNil_iff : d.ty = none ↔ t.resolved = .unit
  ty_eq : ∀ u, d.ty = some u → u = t.resolved
  /-- the element type is the declared one, with its own layers -/
  elemType_iff : ∀ e, d.elemType = some e ↔ t.resolved = .slice e ∨ ∃ kind key, t.resolved = .map kind key e
  /-- of a dynamic slot the type is known, and nothing else -/
  slot : t.resolved = .any → d.kind = .other ∧ d.ty = some .any

theorem wellFormed_ofShape {t : Ty} (ht : t.isPointer = false) (shape : Shape) : (ofShape t shape).WellFormed := by
  have hty (u : Ty) : some t = some u → u.isPointer = false := by
    rintro ⟨⟩
    exact ht
  cases shape <;> constructor <;> simp_all [ofShape, empty]

end Descriptor

namespace Schema

theorem wellFormed_descriptor (S : Schema) (t : Ty) : (S.descriptor t).WellFormed :=
  Descriptor.wellFormed_ofShape t.resolved_isPointer _

theorem describes_descriptor (S : Schema) (t : Ty) : (S.descriptor t).Describes t := by
  refine { S.wellFormed_descriptor t with isNil_iff := ?_, ty_eq := ?_, elemType_iff := ?_, slot := ?_ }
  all_goals
    rw [descriptor]
    have hpointer := t.resolved_isPointer
    generalize t.resolved = u at hpointer
    cases u <;> simp_all [shape, Descriptor.ofShape, Descriptor.empty, Ty.isPointer]

theorem descriptor_behind (S : Schema) (layers : List Indirection) (t : Ty) :
    S.descriptor (t.behind layers) = S.descriptor t := by
  rw [descriptor, Ty.resolved_behind, descriptor]

theorem descriptor_eq_iff (S : Schema) (t u : Ty) : S.descriptor t = S.descriptor u ↔ t.resolved = u.resolved := by
  constructor
  · intro h
    have ht := S.describes_descriptor t
    have hu := S.describes_descriptor u
    rw [h] at ht
    cases hty : (S.descriptor u).ty with
    | none => rw [ht.isNil_iff.1 hty, hu.isNil_iff.1 hty]
    | some v => rw [← ht.ty_eq v hty, ← hu.ty_eq v hty]
  · intro h
    rw [descriptor, h, descriptor]

end Schema

/-! ## Stores -/

/-- a store that was asked for types has the descriptors of these types and no others -/
theorem Cache.eq_descriptor_of_mem_entries {S : Schema} {rs : List Request} {place : Nat} {c : Cache}
    (hc : (place, c) ∈ (empty.askAll S rs).value) {t : Ty} {d : Descriptor} (hd : (t, d) ∈ c.entries) :
    t ∈ rs.map Request.asked ∧ d = S.descriptor t := by
  obtain ⟨i, hi⟩ := List.mem_iff_getElem?.1 hc
  have hafter := getElem?_askAll S [] rs i
  rw [after_nil, hi, eq_comm, Option.map_eq_some_iff] at hafter
  obtain ⟨r, hr, heq⟩ := hafter
  obtain ⟨-, rfl⟩ := Prod.mk.inj heq
  simp only [after, List.nil_append, List.mem_map, List.mem_eraseDups] at hd
  obtain ⟨u, ⟨r', hr', rfl⟩, heq⟩ := hd
  obtain ⟨rfl, rfl⟩ := Prod.mk.inj heq
  exact ⟨List.mem_map_of_mem (List.mem_of_mem_take hr'), rfl⟩

namespace Schema

/-- **Descriptors are well-formed, and layers of indirection do not show in them.** The descriptor of a type is found by
following its pointers. It is that of the type behind any stack of layers, and of no type whose chain ends elsewhere.
Its parts fit its kind, and say what the type is at the end of the chain. A store answers with no other descriptors,
whatever it is asked for and in whatever order. -/
theorem descriptor_transparent (S : Schema) :
    (∀ t, S.descriptor t = .ofShape (S.follow t).1 (S.follow t).2 ∧ (S.descriptor t).Describes t ∧
      (∀ layers, S.descriptor (t.behind layers) = S.descriptor t) ∧
      ∀ u, S.descriptor u = S.descriptor t → ∃ layers layers', t = t.resolved.behind layers ∧
        u = t.resolved.behind layers') ∧
    ∀ rs place c, (place, c) ∈ (Cache.empty.askAll S rs).value →
      ∀ t d, (t, d) ∈ c.entries → d = S.descriptor t ∧ d.Describes t := by
  constructor
  · intro t
    refine ⟨S.descriptor_eq_follow t, S.describes_descriptor t, fun layers => S.descriptor_behind layers t, ?_⟩
    intro u hu
    obtain ⟨layers, ht⟩ := t.exists_behind_resolved
    obtain ⟨layers', hu'⟩ := u.exists_behind_resolved
    rw [(S.descriptor_eq_iff u t).1 hu] at hu'
    exact ⟨layers, layers', ht, hu'⟩
  · intro rs place c hc t d hd
    obtain ⟨-, rfl⟩ := Cache.eq_descriptor_of_mem_entries hc hd
    exact ⟨rfl, S.describes_descriptor t⟩

/-- a list behind three pointers, asked for after the list itself: the two descriptors are equal and keep the pointers
of the element type; a dynamic slot behind a pointer is still a dynamic slot -/
theorem descriptor_transparent_list :
    let e : Ty := .option (.box (.scalar (.int ⟨true, .w16⟩)))
    let list : Ty := .slice e
    let chain : Ty := .option (.box (.option list))
    let d := Sample.schema.descriptor chain
    d = Sample.schema.descriptor list ∧ d.elemType = some e ∧ d.kind = .slice ∧ d.scalar = none ∧
      (Sample.schema.descriptor (.box .any)).kind = .other ∧
      ∃ c, (1, c) ∈ (Cache.empty.askAll Sample.schema [.ofType list, .ofType chain]).value ∧
        ∀ t d', (t, d') ∈ c.entries → d'.elemType = some e := by
  intro e list chain d
  obtain ⟨hall, hstore⟩ := descriptor_transparent Sample.schema
  obtain ⟨-, hlist, hlayers, -⟩ := hall list
  obtain ⟨-, hslot, -, -⟩ := hall (.box .any)
  have hchain : d = Sample.schema.descriptor list := hlayers [.option, .box, .option]
  have helem : d.elemType = some e := by
    rw [hchain]
    exact (hlist.elemType_iff e).2 (.inl rfl)
  have hrun : (1, Cache.after Sample.schema [list, chain]) ∈
      (Cache.empty.askAll Sample.schema [.ofType list, .ofType chain]).value :=
    List.mem_cons_of_mem _ List.mem_cons_self
  refine ⟨hchain, helem, rfl, rfl, (hslot.slot rfl).1, _, hrun, ?_⟩
  intro t d' hd
  obtain ⟨rfl, -⟩ := hstore _ _ _ hrun t d' hd
  rcases List.mem_cons.1 hd with heq | hd
  · obtain ⟨rfl, -⟩ := Prod.mk.inj heq
    rfl
  · obtain ⟨rfl, -⟩ := Prod.mk.inj (List.mem_singleton.1 hd)
    exact helem

end Schema

end DynAssign
