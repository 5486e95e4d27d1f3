import ArchDiagram.Log.Event

/-! Computations that report what they do. -/
namespace ArchDiagram

/-- A value together with the reports of its computation, oldest first. -/
structure Logged (α : Type) where
  events : List Event
  value : α

namespace Logged

variable {α β : Type}

def bind (x : Logged α) (f : α → Logged β) : Logged β :=
  let y := f x.value
  ⟨x.events ++ y.events, y.value⟩

instance : Monad Logged where
  pure a := ⟨[], a⟩
  bind := bind

def report (e : Event) : Logged Unit :=
  ⟨[e], ()⟩

/-- Reports only if the condition holds. -/
def reportIf (b : Bool) (e : Event) : Logged Unit :=
  ⟨if b then [e] else [], ()⟩

@[ext] theorem ext {x y : Logged α} (he : x.events = y.events) (hv : x.value = y.value) :
    x = y := by
  cases x; cases y; simp_all

@[simp] theorem value_pure (a : α) : (pure a : Logged α).value = a := rfl

@[simp] theorem events_pure (a : α) : (pure a : Logged α).events = [] := rfl

@[simp] theorem value_bind (x : Logged α) (f : α → Logged β) :
    (x >>= f).value = (f x.value).value := rfl

@[simp] theorem events_bind (x : Logged α) (f : α → Logged β) :
    (x >>= f).events = x.events ++ (f x.value).events := rfl

@[simp] theorem events_report (e : Event) : (report e).events = [e] := rfl

@[simp] theorem events_reportIf (b : Bool) (e : Event) :
    (reportIf b e).events = if b then [e] else [] := rfl

instance : LawfulMonad Logged := LawfulMonad.mk' Logged
  (fun x => ext (List.append_nil _) rfl)
  (fun _ _ => rfl)
  (fun _ _ _ => ext (List.append_assoc ..) rfl)

end Logged

/-- A computation that reports what it does and may fail. -/
abbrev Attempt (ε α : Type) := ExceptT ε Logged α

namespace Attempt

variable {ε ε' α β : Type}

def outcome (x : Attempt ε α) : Except ε α :=
  x.run.value

/-- The reports, also those before a failure. -/
def events (x : Attempt ε α) : List Event :=
  x.run.events

def of (events : List Event) (outcome : Except ε α) : Attempt ε α :=
  ExceptT.mk ⟨events, outcome⟩

/-- Replaces the error of a failed attempt. -/
def mapError (f : ε → ε') (x : Attempt ε α) : Attempt ε' α :=
  of x.events (x.outcome.mapError f)

@[simp] theorem outcome_of (es : List Event) (r : Except ε α) : (of es r).outcome = r := rfl

@[simp] theorem events_of (es : List Event) (r : Except ε α) : (of es r).events = es := rfl

@[simp] theorem outcome_pure (a : α) : (pure a : Attempt ε α).outcome = .ok a := rfl

@[simp] theorem events_pure (a : α) : (pure a : Attempt ε α).events = [] := rfl

@[simp] theorem outcome_throw (e : ε) : (throw e : Attempt ε α).outcome = .error e := rfl

@[simp] theorem events_throw (e : ε) : (throw e : Attempt ε α).events = [] := rfl

@[simp] theorem outcome_lift (x : Logged α) : (liftM x : Attempt ε α).outcome = .ok x.value := rfl

@[simp] theorem events_lift (x : Logged α) : (liftM x : Attempt ε α).events = x.events := by
  change x.events ++ [] = x.events
  exact List.append_nil _

@[simp] theorem outcome_mapError (f : ε → ε') (x : Attempt ε α) :
    (x.mapError f).outcome = x.outcome.mapError f := rfl

@[simp] theorem events_mapError (f : ε → ε') (x : Attempt ε α) :
    (x.mapError f).events = x.events := rfl

/-- A sequence stops at the first failure. -/
theorem outcome_bind (x : Attempt ε α) (f : α → Attempt ε β) :
    (x >>= f).outcome = x.outcome.bind fun a => (f a).outcome := by
  change (ExceptT.bindCont f x.outcome).value = _
  cases x.outcome <;> rfl

/-- The reports of a sequence are those of its parts, as far as it gets. -/
theorem events_bind (x : Attempt ε α) (f : α → Attempt ε β) :
    (x >>= f).events = x.events ++ match x.outcome with
      | .ok a => (f a).events
      | .error _ => [] := by
  change x.events ++ (ExceptT.bindCont f x.outcome).events = _
  cases x.outcome <;> rfl

end Attempt

end ArchDiagram
