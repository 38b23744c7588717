import NfcPolling.Service.Configuration
import NfcPolling.Service.Hub

/-! A whole session with the service: the callback side and the configuration
side beside each other. They meet only in the journal, where the levels of the
one decide what is written of the other, and when the service is stopped. -/
namespace NfcPolling.Service

open Journal (Entry)
open Settings (Dialect Verbosity)

variable [Dialect]

structure Session where
  hub : Hub
  configuration : Configuration
  deriving DecidableEq, Repr

namespace Session

/-- A service that nothing has been done with. -/
def initial : Session := ⟨Hub.initial, Configuration.initial⟩

inductive Step where
  | hub (step : Hub.Step)
  | configuration (step : Configuration.Step)
  /-- Ends the registration and forgets the configuration. -/
  | stop
  deriving DecidableEq, Repr

/-- What a caller learns from a step. -/
structure Outcome where
  answer : Answer
  reports : List Report
  /-- The entries that were written. -/
  entries : List Entry
  /-- The levels after the step. -/
  verbosity : Verbosity
  deriving DecidableEq, Repr

def step (s : Session) : Step → Session × Outcome
  | .hub step =>
    let outcome := s.hub.step step
    let (hub, answer, reports) := outcome.value
    let written := s.configuration.levels.written outcome.notes
    ({ s with hub := hub }, ⟨answer, reports, written, s.configuration.verbosity⟩)
  | .configuration step =>
    let outcome := s.configuration.step step
    ({ s with configuration := outcome.configuration },
      ⟨outcome.answer, [], outcome.entries, outcome.configuration.verbosity⟩)
  | .stop =>
    let written := s.configuration.levels.written [.api .stopping]
    (⟨s.hub.deregister, s.configuration.forget⟩,
      ⟨.number 0, [], written, s.configuration.verbosity⟩)

def after (s : Session) (steps : List Step) : Session :=
  steps.foldl (fun s next => (s.step next).1) s

/-- What the caller learns from each of the steps. -/
def run (s : Session) : List Step → List Outcome
  | [] => []
  | next :: rest => (s.step next).2 :: (s.step next).1.run rest

@[simp] theorem after_append (s : Session) (earlier later : List Step) :
    s.after (earlier ++ later) = (s.after earlier).after later := List.foldl_append

theorem run_append (s : Session) (earlier later : List Step) :
    s.run (earlier ++ later) = s.run earlier ++ (s.after earlier).run later := by
  induction earlier generalizing s with
  | nil => rfl
  | cons next rest ih => exact congrArg (_ :: ·) (ih (s.step next).1)

@[simp] theorem length_run (s : Session) (steps : List Step) :
    (s.run steps).length = steps.length := by
  induction steps generalizing s with
  | nil => rfl
  | cons next rest ih => exact congrArg (· + 1) (ih (s.step next).1)

end Session

end NfcPolling.Service
