/-
A wrapper on a location and a wrapper with storage of its own do the same.

The one remembers the contents and the storage around them, the other has the whole storage and finds the contents in
it at each access. `Mirrors S st w o` says that the two hold the same storage, and that `o` owns it. Every operation
reports the same, answers the same and leaves two such wrappers again (`Agree`); wrappers that are made on the way, on
elements and fields, are equal outright, so what is done to them is the same computation.

Main statement, on all scripts: `Script.run_located_eq_owned`. It holds of any initial value and any steps, because
only the types of contents matter, which every operation keeps.
-/
import DynAssign.Proofs.Assign
import DynAssign.Script

namespace DynAssign

/-- two wrappers on one storage, the second of which owns it -/
structure Mirrors (S : Schema) (st : Value) (w o : Wrapper) : Prop where
  left : Holds S st w
  right : Holds S st o
  owned : o.ownStorage? = some st

/-- two computations that report and answer the same, and end in wrappers on one storage -/
structure Agree {α : Type} (S : Schema) (x y : Traced (α × Wrapper)) : Prop where
  log : x.log = y.log
  answer : x.value.1 = y.value.1
  mirrors : ∃ st, Mirrors S st x.value.2 y.value.2

namespace Agree

variable {S : Schema} {α β γ : Type}

theorem pure {st : Value} {w o : Wrapper} (h : Mirrors S st w o) (a : α) : Agree S (pure (a, w)) (pure (a, o)) :=
  ⟨rfl, rfl, st, h⟩

theorem bind {x y : Traced (α × Wrapper)} {f g : α × Wrapper → Traced (β × Wrapper)} (h : Agree S x y)
    (hfg : ∀ a st w o, Mirrors S st w o → Agree S (f (a, w)) (g (a, o))) : Agree S (x >>= f) (y >>= g) := by
  obtain ⟨st, hst⟩ := h.mirrors
  have hnext := hfg x.value.1 st x.value.2 y.value.2 hst
  have hy : (x.value.1, y.value.2) = y.value := by rw [h.answer]
  rw [hy] at hnext
  exact ⟨congrArg₂ (· ++ ·) h.log hnext.log, hnext.answer, hnext.mirrors⟩

theorem after (x : Traced γ) {f g : γ → Traced (α × Wrapper)} (h : Agree S (f x.value) (g x.value)) :
    Agree S (x >>= f) (x >>= g) :=
  ⟨congrArg (x.log ++ ·) h.log, h.answer, h.mirrors⟩

theorem map {x y : Traced (α × Wrapper)} (h : Agree S x y) (f : α → β) :
    Agree S ((fun p => (f p.1, p.2)) <$> x) ((fun p => (f p.1, p.2)) <$> y) := by
  refine ⟨?_, congrArg f h.answer, h.mirrors⟩
  rw [Traced.log_map, Traced.log_map, h.log]

end Agree

theorem Wrapper.ownStorage?_put {o : Wrapper} {st : Value} (h : o.ownStorage? = some st) (x : Value) :
    (o.put x).ownStorage? = some (st.setChainEnd x) := by
  unfold ownStorage? at h
  split at h
  · next y hy =>
    cases h
    rw [put, ownStorage?, hy]
    rfl
  · cases h

theorem Holds.pushAll {S : Schema} {st : Value} {w : Wrapper} (h : Holds S st w) {e : Ty} {xs ys : List Value}
    (hc : st.chainEnd = .list e xs) (hys : ∀ y ∈ ys, y.ty = e) :
    w.pushAll ys = (.ok (), w.put (.list e (xs ++ ys))) := by
  rw [Wrapper.pushAll, h.target, hc]
  simp only [Value.pushAll_list hys]

/-! ## Types that writing keeps -/

namespace Value

theorem ty_putAt (S : Schema) (v x : Value) (path : List Nat) : (v.putAt S x path).ty = v.ty := by
  fun_cases putAt S v x path <;> simp

theorem ty_descend (S : Schema) (v : Value) (i : Nat) (path : List Nat) :
    (v.descend S i path).value.2.ty = v.ty := by
  cases hf : v.field? S i with
  | none => rw [(descend_of_no_field hf path).1]
  | some fx => cases path with
    | nil => rw [descend_last hf, ty_setPosition]
    | cons j rest => rw [descend_next hf, ty_setPosition]

theorem ty_allocateFields (S : Schema) (v : Value) : (v.allocateFields S).value.ty = v.ty := by
  cases v <;> rfl

end Value

namespace Mirrors

variable {S : Schema} {st x : Value} {w o : Wrapper}

/-! ## Reading -/

theorem contents (h : Mirrors S st w o) : w.contents? = o.contents? := by rw [h.left.contents, h.right.contents]

theorem descriptor (h : Mirrors S st w o) : w.descriptor = o.descriptor := by
  rw [h.left.descriptor, h.right.descriptor]

theorem declared (h : Mirrors S st w o) : w.declared = o.declared := by rw [h.left.declared, h.right.declared]

theorem declaredName (h : Mirrors S st w o) : w.declaredName = o.declaredName := by
  rw [Wrapper.declaredName, Wrapper.declaredName, h.declared]

theorem elemDescriptor (h : Mirrors S st w o) : w.elemDescriptor = o.elemDescriptor := by
  rw [h.left.elemDescriptor, h.right.elemDescriptor]

theorem writable (h : Mirrors S st w o) : w.writable = o.writable := by rw [h.left.writable, h.right.writable]

/-- elements are made from the descriptor alone -/
theorem freshElement (h : Mirrors S st w o) : w.freshElement S = o.freshElement S := by
  rw [Wrapper.freshElement, Wrapper.freshElement, h.left.isUnbound, h.right.isUnbound, h.descriptor, h.declaredName]

theorem shown (h : Mirrors S st w o) : w.shown = o.shown := by
  unfold Wrapper.shown
  rw [h.declaredName, h.descriptor, h.writable, h.contents]

/-! ## Writing -/

theorem put (h : Mirrors S st w o) (hx : x.ty = st.ty.resolved) :
    Mirrors S (st.setChainEnd x) (w.put x) (o.put x) := by
  exact ⟨h.left.put hx, h.right.put hx, Wrapper.ownStorage?_put h.owned x⟩

theorem store (h : Mirrors S st w o) {x : Attempt Fault Value}
    (hx : ∀ r, x.run.value = .ok r → r.ty = st.ty.resolved) :
    Agree S (w.store S st.ty.resolved x) (o.store S st.ty.resolved x) := by
  unfold Wrapper.store
  refine .after _ ?_
  cases hr : x.run.value with
  | ok r => exact .pure (h.put (hx r hr)) _
  | error e => exact .pure (h.put (Value.ty_zero S _)) _

theorem assign (h : Mirrors S st w o) (src : Value) : Agree S (w.assign S src) (o.assign S src) := by
  rw [Wrapper.assign_eq_store h.left, Wrapper.assign_eq_store h.right]
  exact h.store fun r hr => Value.ty_of_convert hr

theorem reset (h : Mirrors S st w o) : Agree S (w.reset S) (o.reset S) := by
  rw [Wrapper.reset, Wrapper.reset, h.left.isUnbound, h.right.isUnbound, h.left.target, h.right.target]
  exact .pure (h.put ((Value.ty_zero S _).trans h.left.ty_chainEnd)) _

/-- elements are converted items, whatever the wrapper they are for -/
theorem append (h : Mirrors S st w o) (items : List Value) : Agree S (w.append S items) (o.append S items) := by
  rw [Wrapper.append, Wrapper.append, h.left.isUnbound, h.right.isUnbound, h.descriptor, h.declaredName]
  by_cases hslice : o.descriptor.isSlice
  · obtain ⟨e, he⟩ : ∃ e, st.ty.resolved = .slice e := by rwa [h.right.descriptor, Schema.isSlice_iff] at hslice
    have hbuild {u : Wrapper} (hu : Holds S st u) : u.buildAll S items 0 = Value.convertAll S items 0 e := by
      refine Wrapper.buildAll_eq_convertAll hu.isUnbound ?_ items 0
      rw [hu.descriptor, Schema.elemType_of_resolved_slice S he]
    obtain ⟨xs, hc⟩ := h.left.exists_list he
    simp only [hslice, Bool.not_true, Bool.false_eq_true, if_false, Wrapper.appendAll, h.left.writable,
      h.right.writable, hbuild h.left, hbuild h.right]
    refine .after _ ?_
    cases hys : (Value.convertAll S items 0 e).run.value with
    | error err => exact .pure h _
    | ok ys =>
      have htys := Value.ty_of_mem_convertAll hys
      simp only [h.left.pushAll hc htys, h.right.pushAll hc htys]
      exact .pure (h.put (x := .list e (xs ++ ys)) he.symm) _
  · simp only [Bool.false_eq_true, if_false, hslice]
    exact .pure h _

/-! ## Fields -/

theorem fields (h : Mirrors S st w o) : Agree S (w.fields S) (o.fields S) := by
  rw [Wrapper.fields, Wrapper.fields, h.left.descriptor, h.right.descriptor, h.left.target, h.right.target]
  split
  · exact .pure h _
  · refine .after _ (.pure (h.put ?_) _)
    rw [Value.ty_allocateFields, h.left.ty_chainEnd]

theorem fieldsFor (h : Mirrors S st w o) (tag : Option String) : Agree S (w.fieldsFor S tag) (o.fieldsFor S tag) := by
  cases tag with
  | none => exact h.fields
  | some key => exact h.fields.bind fun fs st w o h => .pure h _

theorem putField (h : Mirrors S st w o) (f : Field) : ∃ st', Mirrors S st' (w.putField f) (o.putField f) := by
  rw [Wrapper.putField, Wrapper.putField, h.left.target, h.right.target]
  cases f.wrapper.storage? with
  | none => exact ⟨st, h⟩
  | some x => exact ⟨_, h.put ((Value.ty_setPosition _ _ _).trans h.left.ty_chainEnd)⟩

theorem foldl_putField (h : Mirrors S st w o) (fs : List Field) :
    ∃ st', Mirrors S st' (fs.foldl Wrapper.putField w) (fs.foldl Wrapper.putField o) := by
  induction fs generalizing st w o with
  | nil => exact ⟨st, h⟩
  | cons f fs ih =>
    obtain ⟨st', h'⟩ := h.putField f
    exact ih h'

theorem fieldAt (h : Mirrors S st w o) (path : List Nat) : Agree S (w.fieldAt S path) (o.fieldAt S path) := by
  cases path with
  | nil =>
    rw [Wrapper.fieldAt.eq_def, Wrapper.fieldAt.eq_def, h.left.isUnbound, h.right.isUnbound]
    exact .pure h _
  | cons i rest =>
    rw [Wrapper.fieldAt.eq_def, Wrapper.fieldAt.eq_def, h.left.isUnbound, h.right.isUnbound]
    simp only [Bool.false_eq_true, if_false, h.left.target, h.right.target]
    refine .after _ (.pure (h.put ?_) _)
    rw [Value.ty_descend, h.left.ty_chainEnd]

theorem putFieldAt (h : Mirrors S st w o) (path : List Nat) (sub : Wrapper) :
    ∃ st', Mirrors S st' (w.putFieldAt S path sub) (o.putFieldAt S path sub) := by
  rw [Wrapper.putFieldAt, Wrapper.putFieldAt, h.left.target, h.right.target]
  cases sub.storage? with
  | none => exact ⟨st, h⟩
  | some x => exact ⟨_, h.put ((Value.ty_putAt S _ x path).trans h.left.ty_chainEnd)⟩

/-! ## Filling -/

/-- what is told of a fill is the same, whatever is made of it -/
theorem visit (h : Mirrors S st w o) (tag : Option String) (rule : Field → Outcome) {α : Type}
    (f : List String → Except Fault Unit → α) :
    Agree S (do let filled ← w.visit S tag rule; pure (f filled.asked filled.result, filled.wrapper))
      (do let filled ← o.visit S tag rule; pure (f filled.asked filled.result, filled.wrapper)) := by
  rw [Wrapper.visit, Wrapper.visit, h.left.isUnbound, h.right.isUnbound, h.descriptor, h.declaredName]
  by_cases hrecord : o.descriptor.isRecord
  · simp only [hrecord, Bool.false_eq_true, if_false, Bool.not_true, bind_assoc, pure_bind]
    refine (h.fieldsFor tag).bind fun fs st w o h => .after _ ?_
    obtain ⟨st', h'⟩ := h.foldl_putField (Wrapper.visitEach rule fs).value.2.2
    exact .pure h' _
  · simp only [hrecord, Bool.false_eq_true, if_false]
    exact .pure h _

end Mirrors

/-! ## Scripts -/

namespace Script

variable {S : Schema} {st : Value} {w o : Wrapper}

theorem agree_replyOf {x y : Outcome} (h : Agree S x y) : Agree S (replyOf x) (replyOf y) := h.map Reply.outcome

/-- **A step does the same to two wrappers on one storage.** The steps inside it run on one and the same wrapper. -/
theorem agree_exec (h : Mirrors S st w o) (s : Step) : Agree S (exec S s w) (exec S s o) := by
  cases s with
  | look =>
    rw [exec, exec]
    exact .pure h _
  | assign src =>
    rw [exec, exec]
    exact agree_replyOf (h.assign src)
  | reset =>
    rw [exec, exec]
    exact agree_replyOf h.reset
  | append items =>
    rw [exec, exec]
    exact agree_replyOf (h.append items)
  | freshElement steps appended =>
    rw [exec, exec, h.freshElement]
    refine .after _ ?_
    cases (o.freshElement S).run.value with
    | error e => exact .pure h _
    | ok elem =>
      refine .after _ ?_
      cases appended with
      | false => exact .pure h _
      | true => exact (h.append _).bind fun r st w o h => .pure h _
  | fields tag =>
    rw [exec, exec]
    exact (h.fieldsFor tag).bind fun fs st w o h => .pure h _
  | field tag i steps =>
    rw [exec, exec]
    refine (h.fieldsFor tag).bind fun fs st w o h => ?_
    dsimp only
    cases fs[i]? with
    | none => exact .pure h _
    | some f =>
      refine .after _ ?_
      obtain ⟨st', h'⟩ := h.putField { f with wrapper := (execAll S steps f.wrapper).value.2 }
      exact .pure h' _
  | fieldAt path steps =>
    rw [exec, exec]
    refine (h.fieldAt path).bind fun r st w o h => ?_
    cases r with
    | error e => exact .pure h _
    | ok sub =>
      refine .after _ ?_
      obtain ⟨st', h'⟩ := h.putFieldAt path (execAll S steps sub).value.2
      exact .pure h' _
  | fill tag l told =>
    rw [exec, exec]
    exact h.visit tag _ fun asked r => Reply.filled r (if told then some asked else none)
  | describe =>
    rw [exec, exec, h.descriptor, h.elemDescriptor, h.declared, h.writable]
    exact .pure h _
  | describeField name =>
    rw [exec, exec, h.descriptor]
    exact .pure h _
  | read t =>
    rw [exec, exec, Wrapper.read?, Wrapper.read?, h.contents]
    exact .pure h _
  | inspect =>
    rw [exec, exec, h.shown]
    exact .pure h _

/-- steps in order do the same, and the same contents are seen after each of them -/
theorem agree_execAll (h : Mirrors S st w o) (steps : List Step) :
    Agree S (execAll S steps w) (execAll S steps o) := by
  induction steps generalizing st w o with
  | nil =>
    rw [execAll, execAll]
    exact .pure h _
  | cons s ss ih =>
    rw [execAll, execAll]
    refine (agree_exec h s).bind fun reply st w o h => ?_
    dsimp only
    rw [h.contents]
    exact (ih h).bind fun reports st w o h => .pure h _

/-- a script from the two ways to bind a wrapper that writes -/
theorem agree_locate_own (S : Schema) (init : Value) (steps : List Step) :
    Agree S (Wrapper.locate S init >>= execAll S steps) (Wrapper.own S init >>= execAll S steps) := by
  have h : Mirrors S (init.allocate S).value (Wrapper.locate S init).value (Wrapper.own S init).value :=
    ⟨.locate S init, .own S init, rfl⟩
  rw [Wrapper.locate, Wrapper.own, bind_map_left, bind_map_left]
  exact .after _ (agree_execAll h steps)

/-- **A location and storage of its own are interchangeable.** From any initial value, any script reports the same,
answers the same and shows the same contents after each step, nested steps and failing ones included, whether the
wrapper is bound to a location or to storage of its own. What is in the location at the end is what the other wrapper
owns. No pointer on the chain of that storage is nil, after any script: the walk that allocates has nothing to do, so
it finds what the walk for reading finds. -/
theorem run_located_eq_owned (S : Schema) (init : Value) (steps : List Step) :
    let located := Wrapper.locate S init >>= execAll S steps
    let owned := Wrapper.own S init >>= execAll S steps
    located.log = owned.log ∧ located.value.1 = owned.value.1 ∧
      (∃ st, located.value.2.storage? = some st ∧ owned.value.2.ownStorage? = some st ∧
        st.allocate S = pure st) ∧
      run S .located init steps = run S .owned init steps := by
  intro located owned
  have hagree := agree_locate_own S init steps
  obtain ⟨st, h⟩ := hagree.mirrors
  refine ⟨hagree.log, hagree.answer, ⟨st, h.left.storage, h.owned, h.left.settled.allocate S⟩, ?_⟩
  have hrun (mode : Mode) : run S mode init steps =
      (fun p => (p.1, p.2.storage?.getD init)) <$> (mode.wrap S init >>= execAll S steps) := by
    simp only [run, map_eq_pure_bind, bind_assoc]
  have hstorage : located.value.2.storage? = owned.value.2.storage? := h.left.storage.trans h.right.storage.symm
  rw [hrun, hrun]
  ext1
  · exact Prod.ext hagree.answer (congrArg (Option.getD · init) hstorage)
  · rw [Traced.log_map, Traced.log_map]
    exact hagree.log

end Script

end DynAssign
