import Mathlib.Data.List.Basic

/-!
# Runs of a labelled system

A run takes one step after the other and leaves the list of its events.  What
every step keeps holds after every run, also where it speaks of the events that
have come before.
-/

namespace OpenDylan.Lib

variable {State Event : Type}

/-- A run from one state to another with the events of its steps. -/
inductive Run (step : State → Event → State → Prop) :
    State → List Event → State → Prop where
  | done (state : State) : Run step state [] state
  | next {before middle after : State} {event : Event} {events : List Event}
      (first : step before event middle) (rest : Run step middle events after) :
      Run step before (event :: events) after

namespace Run

variable {step : State → Event → State → Prop} {before middle after : State}
  {events later : List Event}

theorem append (first : Run step before events middle)
    (second : Run step middle later after) :
    Run step before (events ++ later) after := by
  induction first with
  | done state => exact second
  | next first _ ih => exact .next first (ih second)

/-- A run can be cut between two of its events. -/
theorem split (run : Run step before (events ++ later) after) :
    ∃ middle, Run step before events middle ∧ Run step middle later after := by
  induction events generalizing before with
  | nil => exact ⟨before, .done before, run⟩
  | cons event events ih =>
      cases run with
      | next first rest =>
          obtain ⟨middle, front, back⟩ := ih rest
          exact ⟨middle, .next first front, back⟩

/-- The run of a single step. -/
theorem step_of_single {event : Event}
    (run : Run step before [event] after) : step before event after := by
  cases run with
  | next first rest =>
      cases rest
      exact first

/-- What holds of a history and a state, and is kept when a step adds its event
to the history, holds at the end of a run. -/
theorem history {Holds : List Event → State → Prop}
    (keeps : ∀ {past state event new}, Holds past state →
      step state event new → Holds (past ++ [event]) new)
    (run : Run step before events after) {past : List Event}
    (holds : Holds past before) : Holds (past ++ events) after := by
  induction run generalizing past with
  | done state =>
      rw [List.append_nil]
      exact holds
  | next first _ ih =>
      have all := ih (keeps holds first)
      rw [List.append_assoc] at all
      exact all

/-- What every step with an allowed event keeps, every run with allowed events
keeps. -/
theorem invariant {Holds : State → Prop} {Allowed : Event → Prop}
    (keeps : ∀ {state event new}, Holds state → Allowed event →
      step state event new → Holds new)
    (run : Run step before events after)
    (allowed : ∀ event ∈ events, Allowed event) (holds : Holds before) :
    Holds after := by
  induction run with
  | done state => exact holds
  | next first _ ih =>
      apply ih
      · intro event isEvent
        exact allowed event (List.mem_cons_of_mem _ isEvent)
      · exact keeps holds (allowed _ List.mem_cons_self) first

/-- If every step keeps what holds and has an event of some kind, all events of
a run are of that kind. -/
theorem events_satisfy {Holds : State → Prop} {Kind : Event → Prop}
    (keeps : ∀ {state event new}, Holds state → step state event new →
      Kind event ∧ Holds new)
    (run : Run step before events after) (holds : Holds before) :
    ∀ event ∈ events, Kind event := by
  induction run with
  | done state =>
      intro event isEvent
      cases isEvent
  | next first _ ih =>
      intro event isEvent
      have kept := keeps holds first
      rcases List.mem_cons.1 isEvent with isFirst | inRest
      · rw [isFirst]
        exact kept.1
      · exact ih kept.2 event inRest

end Run

end OpenDylan.Lib
