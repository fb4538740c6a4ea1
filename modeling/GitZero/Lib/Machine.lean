/-
Module: GitZero.Lib.Machine
Purpose: Runs of a deterministic event-driven machine, and the two induction
  rules every result about whole runs is read off from.
Trusted boundary: none
Main exports: run, Along, run_invariant, Along.invariant, Along.safe
-/
import Mathlib.Data.List.Basic

namespace GitZero.Machine

variable {State Event : Type*}

/-- Replay a finite event history.  All nondeterminism of the environment
(clock readings, replies of remote services, which suspended task continues)
is data of the events. -/
def run (step : State → Event → State) (start : State) (events : List Event) : State :=
  events.foldl step start

@[simp] theorem run_nil (step : State → Event → State) (start : State) :
    run step start [] = start := rfl

@[simp] theorem run_cons (step : State → Event → State) (start : State)
    (event : Event) (events : List Event) :
    run step start (event :: events) = run step (step start event) events := rfl

theorem run_append (step : State → Event → State) (start : State)
    (first second : List Event) :
    run step start (first ++ second) = run step (run step start first) second := by
  simp [run]

/-- Every step of the run from `state` meets `Good`, a condition on the state
before the step and on the event. -/
def Along (step : State → Event → State) (Good : State → Event → Prop) :
    State → List Event → Prop
  | _, [] => True
  | state, event :: events => Good state event ∧ Along step Good (step state event) events

instance Along.decidable (step : State → Event → State)
    (Good : State → Event → Prop) [∀ state event, Decidable (Good state event)] :
    ∀ state events, Decidable (Along step Good state events)
  | _, [] => isTrue trivial
  | state, event :: events =>
      have := Along.decidable step Good (step state event) events
      inferInstanceAs (Decidable (_ ∧ _))

theorem Along.append {step : State → Event → State} {Good : State → Event → Prop}
    {state : State} {first second : List Event} :
    Along step Good state (first ++ second) ↔
      Along step Good state first ∧ Along step Good (run step state first) second := by
  induction first generalizing state with
  | nil => simp [Along]
  | cons event events inductionHypothesis =>
      simp [Along, inductionHypothesis, and_assoc]

theorem Along.mono {step : State → Event → State} {Good Better : State → Event → Prop}
    (weaker : ∀ state event, Better state event → Good state event) {state : State}
    {events : List Event} (along : Along step Better state events) :
    Along step Good state events := by
  induction events generalizing state with
  | nil => trivial
  | cons event events inductionHypothesis =>
      exact ⟨weaker state event along.1, inductionHypothesis along.2⟩

theorem Along.of_forall {step : State → Event → State} {Good : State → Event → Prop}
    (good : ∀ state event, Good state event) (state : State) (events : List Event) :
    Along step Good state events := by
  induction events generalizing state with
  | nil => trivial
  | cons event events inductionHypothesis =>
      exact ⟨good state event, inductionHypothesis (step state event)⟩

theorem Along.with_mem {step : State → Event → State} {Good : State → Event → Prop}
    {state : State} {events : List Event} (along : Along step Good state events) :
    Along step (fun state event => Good state event ∧ event ∈ events) state events := by
  suffices all : ∀ (rest : List Event) (current : State), (∀ event ∈ rest, event ∈ events) →
      Along step Good current rest →
      Along step (fun state event => Good state event ∧ event ∈ events) current rest from
    all events state (fun _ member => member) along
  intro rest
  induction rest with
  | nil => exact fun _ _ _ => trivial
  | cons event rest inductionHypothesis =>
      intro current within good
      exact ⟨⟨good.1, within event List.mem_cons_self⟩, inductionHypothesis _
        (fun event member => within event (List.mem_cons_of_mem _ member)) good.2⟩

/-- A property that every step keeps holds after every run. -/
theorem run_invariant {step : State → Event → State} {Inv : State → Prop}
    (keeps : ∀ state event, Inv state → Inv (step state event))
    {start : State} (initial : Inv start) (events : List Event) :
    Inv (run step start events) := by
  induction events generalizing start with
  | nil => exact initial
  | cons event events inductionHypothesis =>
      exact inductionHypothesis (keeps start event initial)

/-- The same for runs whose steps all meet a condition. -/
theorem Along.invariant {step : State → Event → State} {Good : State → Event → Prop}
    {Inv : State → Prop}
    (keeps : ∀ state event, Inv state → Good state event → Inv (step state event))
    {start : State} {events : List Event} (initial : Inv start)
    (good : Along step Good start events) : Inv (run step start events) := by
  induction events generalizing start with
  | nil => exact initial
  | cons event events inductionHypothesis =>
      exact inductionHypothesis (keeps start event initial good.1) good.2

/-- An invariant that makes each step safe makes every step of a run safe. -/
theorem Along.safe {step : State → Event → State} {Good Safe : State → Event → Prop}
    {Inv : State → Prop}
    (keeps : ∀ state event, Inv state → Good state event → Inv (step state event))
    (safe : ∀ state event, Inv state → Good state event → Safe state event)
    {start : State} {events : List Event} (initial : Inv start)
    (good : Along step Good start events) : Along step Safe start events := by
  induction events generalizing start with
  | nil => trivial
  | cons event events inductionHypothesis =>
      exact ⟨safe start event initial good.1,
        inductionHypothesis (keeps start event initial good.1) good.2⟩

/-- Two conditions on the steps that agree under an invariant hold along the same runs. -/
theorem Along.congr {step : State → Event → State} {Good Safe : State → Event → Prop}
    {Inv : State → Prop}
    (keeps : ∀ state event, Inv state → Good state event → Inv (step state event))
    (agree : ∀ state event, Inv state → (Good state event ↔ Safe state event))
    {start : State} (initial : Inv start) (events : List Event) :
    Along step Good start events ↔ Along step Safe start events := by
  constructor
  · exact Along.safe keeps (fun state event inv => (agree state event inv).mp) initial
  · exact Along.safe
      (fun state event inv safe => keeps state event inv ((agree state event inv).mpr safe))
      (fun state event inv => (agree state event inv).mpr) initial

end GitZero.Machine
