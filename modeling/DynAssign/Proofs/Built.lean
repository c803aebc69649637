/-
The writable wrappers: how they come about, and what they have in common.

`Built S w` lists the ways to a writable wrapper `w`: on a location, on storage of its own, on a fresh element, on a
field found by enumeration or along a path, and any of these after its contents became other contents of the same
type. `Built.holds`: each of them holds a well-typed storage whose pointers are allocated.
-/
import DynAssign.Proofs.Paths

namespace DynAssign

/-- the writable wrappers -/
inductive Built (S : Schema) : Wrapper → Prop where
  | locate {v : Value} (hv : WellTyped S v) : Built S (Wrapper.locate S v).value
  | own {v : Value} (hv : WellTyped S v) : Built S (Wrapper.own S v).value
  /-- a fresh element of any wrapper, writable or not -/
  | freshElement {w elem : Wrapper} (h : (w.freshElement S).run.value = .ok elem) : Built S elem
  | field {w : Wrapper} {tag : Option String} {f : Field} (hw : Built S w) (hf : f ∈ (w.fieldsFor S tag).value.1) :
    Built S f.wrapper
  | fieldAt {w sub : Wrapper} {path : List Nat} (hw : Built S w) (h : (w.fieldAt S path).value.1 = .ok sub) :
    Built S sub
  /-- the wrapper at a later time, with whatever contents of the same type it shows then -/
  | put {w : Wrapper} {old v : Value} (hw : Built S w) (hold : w.contents? = some old) (hv : WellTyped S v)
    (hty : v.ty = old.ty) : Built S (w.put v)

theorem Wrapper.eq_own_of_freshElement {S : Schema} {w elem : Wrapper} (h : (w.freshElement S).run.value = .ok elem) :
    ∃ e, w.descriptor.elemType = some e ∧ elem = (own S (.zero S e)).value := by
  unfold Wrapper.freshElement at h
  split at h
  · cases h
  · split at h
    · rename_i e he
      cases h
      exact ⟨e, he, rfl⟩
    · cases h

namespace Built

variable {S : Schema} {w : Wrapper}

theorem holds_freshElement {elem : Wrapper} (h : (w.freshElement S).run.value = .ok elem) :
    ∃ st, WellTyped S st ∧ Holds S st elem := by
  obtain ⟨e, -, rfl⟩ := Wrapper.eq_own_of_freshElement h
  exact ⟨_, Value.wellTyped_allocate (Value.wellTyped_zero S e), .own S _⟩

theorem holds_field {st : Value} {tag : Option String} {f : Field} (hst : WellTyped S st) (hw : Holds S st w)
    (hf : f ∈ (w.fieldsFor S tag).value.1) : ∃ x, WellTyped S x ∧ Holds S x f.wrapper := by
  by_cases hrec : w.descriptor.isRecord
  · obtain ⟨name, hname⟩ := hw.isRecord_iff.1 hrec
    obtain ⟨vs, hc⟩ := hw.exists_record hname
    have hend := Value.wellTyped_chainEnd hst
    rw [hc, WellTyped.record_iff] at hend
    rw [hw.fieldsFor hc] at hf
    obtain ⟨x, hx, hwrap⟩ := Wrapper.wrapper_of_mem_fieldsWith hf
    refine ⟨x, Value.wellTyped_allocateVisible hend.2 x (Value.mem_visibleWith hx), ?_⟩
    rw [hwrap]
    exact .of_settled S (Value.isSettled_of_mem_visibleWith hx (Value.visibleSettled_allocateVisible S _ _))
  · rw [Holds.fieldsFor_of_not_isRecord (by simpa using hrec)] at hf
    cases hf

theorem holds_fieldAt {st : Value} {sub : Wrapper} {path : List Nat} (hst : WellTyped S st) (hw : Holds S st w)
    (h : (w.fieldAt S path).value.1 = .ok sub) : ∃ x, WellTyped S x ∧ Holds S x sub := by
  obtain ⟨i, rest, x, rfl, hx, rfl⟩ := hw.exists_of_fieldAt h
  obtain ⟨htyped, hsettled, -⟩ := Value.descend_found (Value.wellTyped_chainEnd hst) hx
  exact ⟨x, htyped, .of_settled S hsettled⟩

/-- **Every writable wrapper holds a well-typed storage whose pointers are allocated.** -/
theorem holds (h : Built S w) : ∃ st, WellTyped S st ∧ Holds S st w := by
  induction h with
  | locate hv => exact ⟨_, Value.wellTyped_allocate hv, .locate S _⟩
  | own hv => exact ⟨_, Value.wellTyped_allocate hv, .own S _⟩
  | freshElement h => exact holds_freshElement h
  | field hw hf ih =>
    obtain ⟨st, hst, hst'⟩ := ih
    exact holds_field hst hst' hf
  | fieldAt hw h ih =>
    obtain ⟨st, hst, hst'⟩ := ih
    exact holds_fieldAt hst hst' h
  | put hw hold hv hty ih =>
    obtain ⟨st, hst, hst'⟩ := ih
    rw [hst'.contents] at hold
    cases hold
    exact ⟨_, Value.wellTyped_setChainEnd st hv, hst'.put (hty.trans hst'.ty_chainEnd)⟩

theorem holds_declared (h : Built S w) {t : Ty} (ht : w.declared = some t) :
    ∃ st, WellTyped S st ∧ Holds S st w ∧ st.ty = t := by
  obtain ⟨st, hst, hw⟩ := h.holds
  exact ⟨st, hst, hw, Option.some.inj (hw.declared.symm.trans ht)⟩

end Built

/-! ## A record for examples -/

namespace Sample

def byte : Ty := .scalar (.int ⟨false, .w8⟩)

/-- text, a weight behind two pointers, rows of bytes, nodes of its own behind pointers, and a hidden flag -/
def node : RecordDecl := ⟨"Node", [
  ⟨"label", .scalar .string, [("json", "l")], true⟩,
  ⟨"weight", .option (.box (.scalar (.int ⟨false, .w64⟩))), [("json", "w")], true⟩,
  ⟨"rows", .slice (.slice byte), [("json", "r"), ("json", "unused")], true⟩,
  ⟨"children", .slice (.option (.record "Node")), [("xml", "c")], true⟩,
  ⟨"marked", .scalar .bool, [], false⟩]⟩

def schema : Schema := .ofDecls [node] (by decide) (by decide)

/-- one row of bytes -/
def bytes (ns : List Int) : Value := .list byte (ns.map fun n => .scalar (.ofInt ⟨false, .w8⟩ n))

/-- rows of bytes -/
def rows (xss : List (List Int)) : Value :=
  .list (.slice byte) (xss.map fun xs => .list byte (xs.map fun n => .scalar (.ofInt ⟨false, .w8⟩ n)))

/-- a node whose weight is there -/
def nodeOf (label : String) (weight : Int) (xss : List (List Int)) (children : List Value) (marked : Bool) : Value :=
  .record "Node" [.scalar (.string label), .ptr (.box (.scalar (.ofInt ⟨false, .w64⟩ weight))), rows xss,
    .list (.option (.record "Node")) (children.map .ptr), .scalar (.bool marked)]

theorem wellTyped_rows (xss : List (List Int)) : WellTyped schema (rows xss) := by
  simp [rows, Value.ty, byte, Scalar.kind, Scalar.ofInt]

theorem wellTyped_nodeOf (label : String) (weight : Int) (xss : List (List Int)) {children : List Value} (marked : Bool)
    (hty : ∀ v ∈ children, v.ty = .record "Node") (hchildren : ∀ v ∈ children, WellTyped schema v) :
    WellTyped schema (nodeOf label weight xss children marked) := by
  rw [nodeOf, WellTyped.record_iff]
  refine ⟨rfl, ?_⟩
  simp only [List.forall_mem_cons]
  refine ⟨.scalar _, .ptr (.box (.scalar _)), wellTyped_rows xss, ?_, .scalar _, by simp⟩
  rw [WellTyped.list_iff, List.forall_mem_map]
  intro v hv
  exact ⟨by rw [Value.ty, hty v hv], .ptr (hchildren v hv)⟩

end Sample

end DynAssign
