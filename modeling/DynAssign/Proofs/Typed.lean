/-
What is written is well typed.

Conversions and fills only pass on what they were given, behind layers and in lists of the right types. So from
well-typed sources they leave well-typed values of the type that they found:
- `Value.wellTyped_convert`: what a conversion gives;
- `KeepsTypes`: a rule on contents keeps values well typed and of their type. Walks along the fields of a record keep
  this property (`keepsTypes_walkRecord`), and an answer whose values are well typed at every depth (`Answer.Typed`)
  has it (`Answer.keepsTypes_effect`).
-/
import DynAssign.Proofs.Effect

namespace DynAssign

namespace Value

variable {S : Schema}

/-! ## Parts of a source -/

theorem wellTyped_concrete {v : Value} (hv : WellTyped S v) : WellTyped S v.concrete := by
  fun_induction concrete v with
  | case1 v ih =>
    cases hv with
    | any hv => exact ih hv
  | case2 => exact hv

theorem wellTyped_content? {v u : Value} (hv : WellTyped S v) (h : v.content? = some u) : WellTyped S u := by
  fun_induction content? v with
  | case1 t => cases h
  | case2 v ih => exact ih (WellTyped.ptr_iff.1 hv) h
  | case3 v ih => exact ih (WellTyped.box_iff.1 hv) h
  | case4 v ih =>
    cases hv with
    | any hv => exact ih hv h
  | case5 =>
    obtain rfl := Option.some.inj h
    exact hv

theorem wellTyped_of_mem_items? {v x : Value} {xs : List Value} (hv : WellTyped S v) (h : v.items? = some xs)
    (hx : x ∈ xs) : WellTyped S x := by
  cases v with
  | list e ys =>
    obtain rfl := Option.some.inj h
    exact (WellTyped.list_iff.1 hv x hx).2
  | _ => cases h

theorem wellTyped_of_mem_asItems {v x : Value} (hv : WellTyped S v) (hx : x ∈ v.asItems) : WellTyped S x := by
  unfold asItems at hx
  cases hitems : v.items? with
  | none =>
    rw [hitems, Option.getD_none, List.mem_singleton] at hx
    rwa [hx]
  | some xs =>
    rw [hitems] at hx
    exact wellTyped_of_mem_items? hv hitems hx

/-! ## Conversion -/

theorem wellTyped_coerce {src r : Value} {t : Ty} (h : src.coerce t = .ok r) : WellTyped S r := by
  unfold coerce at h
  split at h
  · split at h
    · cases h
      exact .scalar _
    · cases h
  · cases h

theorem wellTyped_convertLeaf {src r : Value} {t : Ty} (hsrc : WellTyped S src) (h : src.convertLeaf t = .ok r) :
    WellTyped S r := by
  unfold convertLeaf at h
  split at h
  · cases h
    exact hsrc
  · exact wellTyped_coerce h

theorem sizeOf_le_totalSize {x : Value} {xs : List Value} (hx : x ∈ xs) : sizeOf x ≤ totalSize xs := by
  induction xs with
  | nil => cases hx
  | cons y ys ih =>
    rw [totalSize]
    rcases List.mem_cons.1 hx with rfl | hx
    · omega
    · have := ih hx
      omega

theorem wellTyped_convertAll {srcs ys : List Value} {i : Nat} {e : Ty}
    (hsrcs : ∀ x ∈ srcs, ∀ r, (convert S x e.resolved).run.value = .ok r → WellTyped S r)
    (h : (convertAll S srcs i e).run.value = .ok ys) : ∀ y ∈ ys, WellTyped S y := by
  induction srcs generalizing i ys with
  | nil =>
    rw [convertAll] at h
    cases h
    simp
  | cons src rest ih =>
    rw [List.forall_mem_cons] at hsrcs
    obtain ⟨v, vs, hv, hvs, rfl⟩ := convertAll_cons_eq_ok.1 h
    rw [List.forall_mem_cons]
    exact ⟨wellTyped_layered e (hsrcs.1 v hv), ih hsrcs.2 hvs⟩

theorem wellTyped_convert {src r : Value} {t : Ty} (hsrc : WellTyped S src)
    (h : (convert S src t).run.value = .ok r) : WellTyped S r := by
  by_cases hvoid : S.isVoid src.concrete.ty
  · rw [convert_of_isVoid hvoid] at h
    cases h
    exact wellTyped_zero S t
  have hvoid : S.isVoid src.concrete.ty = false := by simpa using hvoid
  have hconcrete := wellTyped_concrete hsrc
  by_cases hslice : ∃ e, t = .slice e
  · obtain ⟨e, he⟩ := hslice
    rw [he, convert_slice hvoid] at h
    cases hu : src.concrete.content? with
    | none =>
      rw [hu] at h
      cases h
      exact .list (by simp) (by simp)
    | some u =>
      rw [hu] at h
      obtain ⟨ys, hys, rfl⟩ := Attempt.map_eq_ok.1 h
      have hu' := wellTyped_content? hconcrete hu
      have hall := wellTyped_convertAll
        (fun x hx r hr => wellTyped_convert (wellTyped_of_mem_asItems hu' hx) hr) hys
      exact .list (ty_of_mem_convertAll hys) hall
  by_cases hany : t = .any
  · subst hany
    rw [convert_any hvoid] at h
    cases h
    exact .any hconcrete
  rw [convert_single hvoid (fun e he => hslice ⟨e, he⟩) hany] at h
  split at h
  · cases h
    exact hconcrete
  split at h
  · cases h
    exact wellTyped_zero S t
  rename_i u hu
  have hu' := wellTyped_content? hconcrete hu
  split at h
  · rw [Attempt.value_liftExcept] at h
    exact wellTyped_convertLeaf hu' h
  rename_i xs hxs
  split at h
  · cases h
    exact wellTyped_zero S t
  rename_i x hx
  have hlt : sizeOf x < sizeOf src :=
    Nat.lt_of_lt_of_le (sizeOf_getLast?_lt hxs hx) (Nat.le_trans (sizeOf_content?_le hu) (sizeOf_concrete_le src))
  exact wellTyped_convert (wellTyped_of_mem_items? hu' hxs (List.mem_of_getLast? hx)) h
termination_by (sizeOf src, sizeOf t)
decreasing_by
  · have h1 := sizeOf_le_totalSize hx
    have h2 := totalSize_asItems_le u
    have h3 := sizeOf_content?_le hu
    have h4 := sizeOf_concrete_le src
    have h5 := e.sizeOf_resolved_le
    exact Prod.Lex.right' _ (by omega) (by simp [he]; omega)
  · exact Prod.Lex.left _ _ hlt

end Value

theorem Wrapper.wellTyped_assigned {S : Schema} {src : Value} (hsrc : WellTyped S src) (t : Ty) :
    WellTyped S (assigned S t src).2 := by
  unfold assigned
  split
  · next r hr => exact Value.wellTyped_convert hsrc hr
  · exact Value.wellTyped_zero S t

/-! ## Rules -/

/-- a rule on values keeps them well typed and of their type; no pointer on their chains is nil -/
def KeepsTypes (S : Schema) (rule : Value → Except Fault Unit × Value) : Prop :=
  ∀ v, WellTyped S v → v.IsSettled → WellTyped S (rule v).2 ∧ (rule v).2.ty = v.ty

section

variable {S : Schema} {tag : Option String} {step : FieldRule}

theorem keepsTypes_assigned {src : Value} (hsrc : WellTyped S src) :
    KeepsTypes S fun v => Wrapper.assigned S v.ty src := by
  intro v _ _
  exact ⟨Wrapper.wellTyped_assigned hsrc v.ty, Wrapper.ty_assigned S v.ty src⟩

theorem KeepsTypes.atEnd {rule : Value → Except Fault Unit × Value} (h : KeepsTypes S rule) :
    KeepsTypes S (atEnd rule) := by
  intro st hst hsettled
  obtain ⟨hv, hty⟩ := h st.chainEnd (Value.wellTyped_chainEnd hst) (Value.isSettled_of_not_isPointer hsettled)
  exact ⟨Value.wellTyped_setChainEnd st hv, Value.ty_setChainEnd (hty.trans hsettled.ty_chainEnd)⟩

/-- what a rule keeps in each field, a walk keeps in all of them -/
theorem keepsTypes_walk (tag : Option String) (hstep : ∀ key name, KeepsTypes S (step key name))
    {ds : List FieldDecl} {vs : List Value} (hvs : ∀ v ∈ vs, WellTyped S v) (hs : Value.VisibleSettled ds vs) :
    (∀ v ∈ (walk tag step ds vs).values, WellTyped S v) ∧
      (walk tag step ds vs).values.map Value.ty = vs.map Value.ty := by
  induction ds generalizing vs with
  | nil => exact ⟨hvs, rfl⟩
  | cons d ds ih => cases vs with
    | nil => exact ⟨hvs, rfl⟩
    | cons v vs =>
      rw [List.forall_mem_cons] at hvs
      obtain ⟨hrest, htys⟩ := ih hvs.2 hs.2
      cases hk : d.key? tag with
      | none =>
        rw [walk_cons_none hk]
        exact ⟨List.forall_mem_cons.2 ⟨hvs.1, hrest⟩, congrArg (v.ty :: ·) htys⟩
      | some key =>
        obtain ⟨hx, hty⟩ := hstep key d.name v hvs.1 (hs.1 (Wrapper.visible_of_key? hk))
        cases hr : step key d.name v with
        | mk r x =>
          rw [hr] at hx hty
          cases r with
          | error e =>
            rw [walk_cons_error hk hr]
            exact ⟨List.forall_mem_cons.2 ⟨hx, hvs.2⟩, congrArg (· :: vs.map Value.ty) hty⟩
          | ok u =>
            rw [walk_cons_ok hk hr]
            exact ⟨List.forall_mem_cons.2 ⟨hx, hrest⟩, congrArg₂ List.cons hty htys⟩

theorem keepsTypes_walkRecord (tag : Option String) (hstep : ∀ key name, KeepsTypes S (step key name)) :
    KeepsTypes S (recordRule S tag step) := by
  intro v hv _
  refine ⟨?_, ty_walkRecord S tag step v⟩
  cases v with
  | record name vs =>
    obtain ⟨htys, hvs⟩ := WellTyped.record_iff.1 hv
    obtain ⟨hws, hwtys⟩ := keepsTypes_walk tag hstep (Value.wellTyped_allocateVisible hvs)
      (Value.visibleSettled_allocateVisible S (S.fields name) vs)
    exact .record (hwtys.trans ((Value.map_ty_allocateVisible S _ vs).trans htys)) hws
  | _ => exact hv

theorem wellTyped_builtElement (hstep : ∀ key name, KeepsTypes S (step key name)) {e : Ty} {x : Value}
    (h : builtElement S tag step e = .ok x) : x.ty = e ∧ WellTyped S x := by
  have hzero : (Value.zero S e.resolved).IsSettled :=
    Value.isSettled_of_not_isPointer (Value.isPointer_of_ty (Value.ty_zero S e.resolved))
  obtain ⟨hx, hty⟩ := keepsTypes_walkRecord tag hstep _ (Value.wellTyped_zero S e.resolved) hzero
  rw [Value.ty_zero] at hty
  rw [eq_of_builtElement h]
  exact ⟨Value.ty_layered hty, Value.wellTyped_layered e hx⟩

theorem keepsTypes_shaped {elements : Ty → Except Fault Unit × List Value}
    {rule : Value → Except Fault Unit × Value} (helements : ∀ e, ∀ x ∈ (elements e).2, x.ty = e ∧ WellTyped S x)
    (hrule : KeepsTypes S rule) (fault : Fault) : KeepsTypes S (shaped S elements rule fault) := by
  intro v hv hsettled
  unfold shaped
  split
  · next e he =>
    rw [(eq_slice_of_recordElement? he).1]
    exact ⟨WellTyped.list_iff.2 (helements e), rfl⟩
  · split
    · exact hrule v hv hsettled
    · exact ⟨hv, rfl⟩

end

/-! ## Answers -/

namespace Answer

variable {S : Schema} {tag : Option String}

/-- the values in an answer are well typed, at every depth -/
inductive Typed (S : Schema) : Answer → Prop where
  | nothing : Typed S .nothing
  | value {v : Value} (hv : WellTyped S v) : Typed S (.value v)
  | nested {l : Lookup} (hl : ∀ key, Typed S (l key)) : Typed S (.nested l)
  | several {ls : List Lookup} (hls : ∀ l ∈ ls, ∀ key, Typed S (l key)) : Typed S (.several ls)

theorem wellTyped_effectEach {ls : List Lookup} (hls : ∀ l ∈ ls, ∀ key name, KeepsTypes S (l.rule S tag key name))
    (i : Nat) (e : Ty) : ∀ x ∈ (effectEach S tag ls i e).2, x.ty = e ∧ WellTyped S x := by
  induction ls generalizing i with
  | nil => simp [effectEach]
  | cons l ls ih =>
    rw [List.forall_mem_cons] at hls
    rw [effectEach_cons]
    cases hbuilt : builtElement S tag (l.rule S tag) e with
    | error err => simp
    | ok x => exact List.forall_mem_cons.2 ⟨wellTyped_builtElement hls.1 hbuilt, ih hls.2 (i + 1)⟩

theorem keepsTypes_effectLast {ls : List Lookup} (hls : ∀ l ∈ ls, ∀ key name, KeepsTypes S (l.rule S tag key name)) :
    KeepsTypes S (effectLast S tag ls) := by
  intro v hv hsettled
  rw [effectLast_eq]
  cases hl : ls.getLast? with
  | none => exact ⟨hv, rfl⟩
  | some l => exact keepsTypes_walkRecord tag (hls l (List.mem_of_getLast? hl)) v hv hsettled

/-- **An answer with well-typed values keeps a field well typed.** -/
theorem keepsTypes_effect {a : Answer} (ha : a.Typed S) (tag : Option String) (key name : String) :
    KeepsTypes S (a.effect S tag key name) := by
  induction ha generalizing key name with
  | nothing => exact keepsTypes_assigned .unit
  | value hv => exact keepsTypes_assigned hv
  | nested hl ih =>
    have hrule (key name : String) := (ih key key name).atEnd
    refine keepsTypes_shaped ?_ (keepsTypes_walkRecord tag hrule) _
    intro e
    cases hbuilt : builtElement S tag _ e with
    | error err => simp [onlyElement]
    | ok x => exact List.forall_mem_singleton.2 (wellTyped_builtElement hrule hbuilt)
  | several hls ih =>
    have hrule : ∀ l ∈ _, ∀ key name, KeepsTypes S (Lookup.rule S tag l key name) :=
      fun l hl key name => (ih l hl key key name).atEnd
    exact keepsTypes_shaped (wellTyped_effectEach hrule 0) (keepsTypes_effectLast hrule) _

end Answer

theorem Lookup.keepsTypes_rule {S : Schema} {l : Lookup} (hl : ∀ key, (l key).Typed S) (tag : Option String)
    (key name : String) : KeepsTypes S (l.rule S tag key name) :=
  (Answer.keepsTypes_effect (hl key) tag key name).atEnd

end DynAssign
