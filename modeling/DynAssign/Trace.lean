/-
The trace of a computation: what happened besides its result.

`Traced α` is a value with the events that led to it, oldest first. Events never influence a result: `bind` passes the
value on and joins the two logs.
-/
import DynAssign.Text.Quoted
import DynAssign.Schema.Descriptor

namespace DynAssign

inductive Event where
  /-- a nil pointer of this type was given a fresh value -/
  | allocated (pointer : Ty)
  /-- a field is about to take an answer of this kind, found under a key -/
  | filling (field key answer : String)
  /-- a type was described for the first time -/
  | described (ty : Ty) (descriptor : Descriptor)
deriving DecidableEq, Repr

/-- the line that reports an event -/
def Event.line : Event → String
  | allocated t => "[reflect] allocating nil " ++ t.fullName
  | filling field key answer => "[fill] " ++ field ++ " <- " ++ quoted key ++ " (" ++ answer ++ ")"
  | described t d => "[type_cache] described " ++ t.fullName ++ " as " ++ d.kind.name ++ " (" ++ d.typeName ++ ")"

@[ext] structure Traced (α : Type) where
  value : α
  log : List Event
deriving Repr

namespace Traced

protected def pure {α : Type} (a : α) : Traced α := ⟨a, []⟩

protected def bind {α β : Type} (x : Traced α) (f : α → Traced β) : Traced β :=
  ⟨(f x.value).value, x.log ++ (f x.value).log⟩

instance : Monad Traced where
  pure := Traced.pure
  bind := Traced.bind

instance : LawfulMonad Traced := LawfulMonad.mk' Traced
  (fun x => by cases x; simp [Functor.map, Traced.bind, Traced.pure])
  (fun a f => by simp [Bind.bind, Traced.bind, Pure.pure, Traced.pure])
  (fun x f g => by simp [Bind.bind, Traced.bind, List.append_assoc])

@[simp] theorem value_pure {α : Type} (a : α) : (pure a : Traced α).value = a := rfl

@[simp] theorem log_pure {α : Type} (a : α) : (pure a : Traced α).log = [] := rfl

@[simp] theorem value_bind {α β : Type} (x : Traced α) (f : α → Traced β) :
    (x >>= f).value = (f x.value).value := rfl

@[simp] theorem log_bind {α β : Type} (x : Traced α) (f : α → Traced β) :
    (x >>= f).log = x.log ++ (f x.value).log := rfl

/-- what follows a computation matters for the value of the computation only -/
theorem bind_congr {α β : Type} {x : Traced α} {f g : α → Traced β} (h : f x.value = g x.value) :
    (x >>= f) = (x >>= g) := by
  ext1 <;> simp [h]

@[simp] theorem value_map {α β : Type} (f : α → β) (x : Traced α) : (f <$> x).value = f x.value := rfl

@[simp] theorem log_map {α β : Type} (f : α → β) (x : Traced α) : (f <$> x).log = x.log := by
  simp [Functor.map, Traced.bind, Traced.pure]

/-- events with nothing to return -/
def report (events : List Event) : Traced Unit := ⟨(), events⟩

@[simp] theorem log_report (events : List Event) : (report events).log = events := rfl

end Traced

/-- a computation that may stop at a fault; what it reported before the fault stays reported -/
abbrev Attempt (ε α : Type) := ExceptT ε Traced α

namespace Attempt

def report {ε : Type} (events : List Event) : Attempt ε Unit := ExceptT.lift (Traced.report events)

/-- the fault of a computation put in context -/
def inContext {ε α : Type} (context : ε → ε) (x : Attempt ε α) : Attempt ε α :=
  ExceptT.mk ((·.mapError context) <$> x.run)

section

variable {ε α β : Type}

@[simp] theorem value_pure (a : α) : (pure a : Attempt ε α).run.value = .ok a := rfl

@[simp] theorem value_throw (e : ε) : (throw e : Attempt ε α).run.value = .error e := rfl

@[simp] theorem value_report (events : List Event) : (report events : Attempt ε Unit).run.value = .ok () := rfl

@[simp] theorem value_liftExcept (x : Except ε α) : (liftExcept x : Attempt ε α).run.value = x := by
  cases x <;> rfl

@[simp] theorem value_inContext (context : ε → ε) (x : Attempt ε α) :
    (inContext context x).run.value = x.run.value.mapError context := rfl

theorem bind_eq_ok {x : Attempt ε α} {f : α → Attempt ε β} {b : β} :
    (x >>= f).run.value = .ok b ↔ ∃ a, x.run.value = .ok a ∧ (f a).run.value = .ok b := by
  rw [ExceptT.run_bind, Traced.value_bind]
  cases x.run.value <;> simp

theorem map_eq_ok {x : Attempt ε α} {f : α → β} {b : β} :
    (f <$> x).run.value = .ok b ↔ ∃ a, x.run.value = .ok a ∧ f a = b := by
  rw [map_eq_pure_bind, bind_eq_ok]
  simp

theorem inContext_eq_ok {context : ε → ε} {x : Attempt ε α} {a : α} :
    (inContext context x).run.value = .ok a ↔ x.run.value = .ok a := by
  rw [value_inContext]
  cases x.run.value with
  | error e => exact ⟨nofun, nofun⟩
  | ok b => exact Iff.rfl

theorem bind_eq_error {x : Attempt ε α} {f : α → Attempt ε β} {e : ε} :
    (x >>= f).run.value = .error e ↔
      x.run.value = .error e ∨ ∃ a, x.run.value = .ok a ∧ (f a).run.value = .error e := by
  rw [ExceptT.run_bind, Traced.value_bind]
  cases x.run.value <;> simp

theorem map_eq_error {x : Attempt ε α} {f : α → β} {e : ε} :
    (f <$> x).run.value = .error e ↔ x.run.value = .error e := by
  rw [map_eq_pure_bind, bind_eq_error]
  simp

theorem inContext_eq_error {context : ε → ε} {x : Attempt ε α} {e : ε} :
    (inContext context x).run.value = .error e ↔ ∃ inner, x.run.value = .error inner ∧ e = context inner := by
  rw [value_inContext]
  cases x.run.value with
  | error inner =>
    change (Except.error (context inner) : Except ε α) = .error e ↔ _
    simp [eq_comm]
  | ok a => exact ⟨nofun, nofun⟩

end

end Attempt

end DynAssign
