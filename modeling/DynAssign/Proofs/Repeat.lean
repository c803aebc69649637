/-
Filling twice is filling once.

A fill that was run before finds what it left: every pointer on the chain of a visible field allocated, every list of
records built from the same lookups, every field that failed in the state in which it fails again. So the second run
asks for the same keys, has the same outcome and changes nothing, also after a fault.

- `walk_again`: a walk with a rule that repeats, repeats.
- `Answer.effect_again`: the effect of an answer repeats, by induction on the answer.
- `Wrapper.fill_fill`: the main statement, on every writable wrapper.
-/
import DynAssign.Proofs.Effect

namespace DynAssign

/-- a rule that does to its own results what it did before, and leaves chains allocated -/
def Repeats (step : FieldRule) : Prop :=
  ∀ key name x, x.IsSettled → (step key name x).2.IsSettled ∧ step key name (step key name x).2 = step key name x

/-- One walk leaves what the next walk leaves as it is. The values behind a fault were not touched, and are not touched
again. -/
theorem walk_again (tag : Option String) {step : FieldRule} (hstep : Repeats step) {ds : List FieldDecl}
    {vs : List Value} (hs : Value.VisibleSettled ds vs) :
    Value.VisibleSettled ds (walk tag step ds vs).values ∧
      walk tag step ds (walk tag step ds vs).values = walk tag step ds vs := by
  induction ds generalizing vs with
  | nil => exact ⟨trivial, rfl⟩
  | cons d ds ih => cases vs with
    | nil => exact ⟨trivial, rfl⟩
    | cons v vs =>
      obtain ⟨hv, hvs⟩ := hs
      obtain ⟨hsettled, hagain⟩ := ih hvs
      cases hk : d.key? tag with
      | none =>
        rw [walk_cons_none hk]
        exact ⟨⟨hv, hsettled⟩, by rw [walk_cons_none hk, hagain]⟩
      | some key =>
        obtain ⟨hx, hxx⟩ := hstep key d.name v (hv (Wrapper.visible_of_key? hk))
        cases hr : step key d.name v with
        | mk r x =>
          rw [hr] at hx hxx
          cases r with
          | error e =>
            rw [walk_cons_error hk hr]
            exact ⟨⟨fun _ => hx, hvs⟩, walk_cons_error hk hxx⟩
          | ok u =>
            rw [walk_cons_ok hk hr]
            exact ⟨⟨fun _ => hx, hsettled⟩, by rw [walk_cons_ok hk hxx, hagain]⟩

theorem walkRecord_again (S : Schema) (tag : Option String) {step : FieldRule} (hstep : Repeats step) (v : Value) :
    walkRecord S tag step (walkRecord S tag step v).2 = walkRecord S tag step v := by
  cases v with
  | record name vs =>
    obtain ⟨hsettled, hagain⟩ := walk_again tag hstep (Value.visibleSettled_allocateVisible S (S.fields name) vs)
    simp only [walkRecord, Value.allocateVisible_of_settled S hsettled, hagain]
  | _ => rfl

theorem recordRule_again (S : Schema) (tag : Option String) {step : FieldRule} (hstep : Repeats step) (v : Value) :
    recordRule S tag step (recordRule S tag step v).2 = recordRule S tag step v := by
  rw [recordRule, recordRule, walkRecord_again S tag hstep]

/-- a rule on contents that repeats does so at the end of every allocated chain -/
theorem atEnd_repeats {rule : Value → Except Fault Unit × Value} (hty : ∀ v, (rule v).2.ty = v.ty)
    (hrule : ∀ v, rule (rule v).2 = rule v) {x : Value} (hx : x.IsSettled) :
    (atEnd rule x).2.IsSettled ∧ atEnd rule (atEnd rule x).2 = atEnd rule x := by
  have hp : (rule x.chainEnd).2.isPointer = false := by
    rw [Value.isPointer, hty]
    exact hx
  refine ⟨Value.isSettled_setChainEnd x hp, ?_⟩
  rw [atEnd, atEnd, Value.chainEnd_setChainEnd x hp, hrule, Value.setChainEnd_setChainEnd x hp]

namespace Answer

variable {S : Schema} {tag : Option String}

theorem repeats_rule {l : Lookup} (hl : ∀ key key' name v,
    (l key).effect S tag key' name ((l key).effect S tag key' name v).2 = (l key).effect S tag key' name v) :
    Repeats (l.rule S tag) :=
  fun key name _ hx => atEnd_repeats (fun v => ty_effect S tag (l key) key name v) (fun v => hl key key name v) hx

/-- **The effect of an answer repeats.** -/
theorem effect_again (S : Schema) (tag : Option String) (a : Answer) (key name : String) (v : Value) :
    a.effect S tag key name (a.effect S tag key name v).2 = a.effect S tag key name v := by
  induction a using nestedInduction generalizing key name v with
  | nothing => rw [effect, effect, Wrapper.ty_assigned]
  | value x => rw [effect, effect, Wrapper.ty_assigned]
  | nested l ih =>
    rw [effect_nested]
    exact shaped_again (ty_walkRecord S tag _) (recordRule_again S tag (repeats_rule ih)) _ v
  | several ls ih =>
    rw [effect_several]
    refine shaped_again (ty_effectLast ls) (fun v => ?_) _ v
    rw [effectLast_eq, effectLast_eq]
    cases hl : ls.getLast? with
    | none => rfl
    | some l => exact recordRule_again S tag (repeats_rule (ih l (List.mem_of_getLast? hl))) v

end Answer

/-! ## Whole fills -/

namespace Holds

variable {S : Schema} {st : Value} {w : Wrapper}

theorem value_fill_again (h : Holds S st w) (tag : Option String) (l : Lookup) :
    ((w.fill S tag l).value.wrapper.fill S tag l).value = (w.fill S tag l).value := by
  by_cases hrec : ∃ name, st.ty.resolved = .record name
  · obtain ⟨name, hname⟩ := hrec
    have hagain := walkRecord_again S tag
      (Answer.repeats_rule fun key => Answer.effect_again S tag (l key)) st.chainEnd
    have hty : (walkRecord S tag (l.rule S tag) st.chainEnd).2.ty = st.ty.resolved := by
      rw [ty_walkRecord, h.ty_chainEnd]
    have hp : (walkRecord S tag (l.rule S tag) st.chainEnd).2.isPointer = false := Value.isPointer_of_ty hty
    have hnext := h.put hty
    rw [h.value_fill hname tag l]
    rw [hnext.value_fill (by rw [Value.ty_setChainEnd hty, hname]) tag l, Value.chainEnd_setChainEnd st hp, hagain]
    rw [Wrapper.put_put w hp]
  · -- the first run changed nothing
    have hno := h.value_visit_of_not_record tag (Wrapper.asking l fun f => (l f.key).feed S tag f)
      fun name hname => hrec ⟨name, hname⟩
    have hwrapper : (w.fill S tag l).value.wrapper = w := by rw [Wrapper.fill, hno]
    rw [hwrapper]

end Holds

/-- **Filling twice is filling once.** On every writable wrapper, whatever it shows, and for every lookup, a second fill
asks for the same keys, has the same outcome and leaves the same storage, whether or not the first one failed. -/
theorem Wrapper.fill_fill {S : Schema} {w : Wrapper} (hw : Built S w) (tag : Option String) (l : Lookup) :
    ((w.fill S tag l).value.wrapper.fill S tag l).value = (w.fill S tag l).value := by
  obtain ⟨st, -, h⟩ := hw.holds
  exact h.value_fill_again tag l

/-- a fill that fails in the second of two elements fails there again, and leaves the emptied rows, the allocated weight
and the one finished element as they are -/
theorem Wrapper.fill_fill_node :
    let l := Lookup.ofEntries [("label", .value (.literal "top")), ("children", .several
      [Lookup.ofEntries [("label", .value (.literal "first"))],
        Lookup.ofEntries [("weight", .value (.literal "heavy"))]])]
    let w := (locate Sample.schema (.zero Sample.schema (.record "Node"))).value
    let first := (w.fill Sample.schema none l).value
    first.result =
        .error (.inField "children" (.inElement 1 (.inField "weight" (.coercion "\"heavy\"" "u64")))) ∧
      (first.wrapper.fill Sample.schema none l).value = first :=
  ⟨by cbv, fill_fill (.locate (Value.wellTyped_zero _ _)) none _⟩

end DynAssign
