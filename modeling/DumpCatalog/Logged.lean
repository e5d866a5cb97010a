import DumpCatalog.Event
import DumpCatalog.Fault

/-! # Logged computations

A computation that may fail and reports events on the way. Its events and its outcome are two
separate views: the outcome of a sequence is the sequence of the outcomes, and the events of a
failed computation are kept. -/

namespace DumpCatalog

/-- The events of a computation, first event first, and how it ended. -/
structure Logged (α : Type) where
  events : List Event
  outcome : Except Fault α

namespace Logged

variable {α β : Type}

/-- A computation that reports nothing. -/
def ofExcept (outcome : Except Fault α) : Logged α := ⟨[], outcome⟩

/-- A computation that reports one event. -/
def report (event : Event) : Logged Unit := ⟨[event], .ok ()⟩

/-- A computation that fails. -/
def fail (fault : Fault) : Logged α := ⟨[], .error fault⟩

/-- The second computation takes the first one's result; a fault of the first one ends both. -/
def andThen (first : Logged α) (next : α → Logged β) : Logged β :=
  match first.outcome with
  | .error fault => ⟨first.events, .error fault⟩
  | .ok a =>
    let rest := next a
    ⟨first.events ++ rest.events, rest.outcome⟩

instance : Monad Logged where
  pure a := ⟨[], .ok a⟩
  bind := andThen

@[simp] theorem outcome_pure (a : α) : (pure a : Logged α).outcome = .ok a := rfl

@[simp] theorem events_pure (a : α) : (pure a : Logged α).events = [] := rfl

@[simp] theorem outcome_report (event : Event) : (report event).outcome = .ok () := rfl

@[simp] theorem events_report (event : Event) : (report event).events = [event] := rfl

@[simp] theorem outcome_fail (fault : Fault) : (fail fault : Logged α).outcome = .error fault := rfl

@[simp] theorem outcome_ofExcept (outcome : Except Fault α) :
    (ofExcept outcome).outcome = outcome := rfl

theorem outcome_bind (first : Logged α) (next : α → Logged β) :
    (first >>= next).outcome = first.outcome >>= fun a => (next a).outcome := by
  simp only [bind, andThen, Except.bind]
  split <;> simp_all

end Logged

end DumpCatalog
