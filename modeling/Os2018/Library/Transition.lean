import Mathlib.Data.List.Basic
import Mathlib.Data.List.Induction
import Mathlib.Tactic.SplitIfs

/-!
# Labelled transition systems

A system is given by its initial states and the steps that its events allow.
A state is reachable when some sequence of events leads to it from an initial
state. What holds initially and is kept by every step holds in every reachable
state (`Reachable.invariant`).

A condition on steps cuts a system down to the runs all of whose steps meet it
(`restrict`). Every statement about all runs under a condition is a statement
about the reachable states of the restricted system.

A deterministic system is a partial function of a state and an event, and
`exec` is its run over a list of events. What a property may say of a state and
the events that led to it, each event keeps or none (`exec_history`). When a step
keeps a property exactly if it meets a condition, then the property holds all
along a run exactly if every step of the run meets the condition
(`exec_holds_iff`). A run is a path of another system when each of its steps is a
step there (`exec_simulates`), and it stands for a run of another system when
each of its steps does (`exec_refines`).
-/

set_option autoImplicit false

namespace Transition

universe u v

/-- Initial states, and the steps that an event allows. -/
structure System (State : Type u) (Event : Type v) where
  init : State → Prop
  step : State → Event → State → Prop

variable {State : Type u} {Event : Type v}

namespace System

variable (M : System State Event)

/-- The events of the list lead from the first state to the last. -/
inductive Path : State → List Event → State → Prop where
  | nil (s : State) : Path s [] s
  | cons {s t u : State} {event : Event} {events : List Event} :
      M.step s event t → Path t events u → Path s (event :: events) u

inductive Reachable : State → Prop where
  | init {s : State} : M.init s → Reachable s
  | step {s t : State} {event : Event} : Reachable s → M.step s event t → Reachable t

/-- The steps of a system that meet a condition. -/
def restrict (allowed : State → Event → Prop) : System State Event where
  init := M.init
  step s event t := allowed s event ∧ M.step s event t

variable {M}

/-- **The invariant rule.** A step may assume that it starts in a reachable
state. -/
theorem Reachable.invariant {P : State → Prop} (start : ∀ s, M.init s → P s)
    (keep : ∀ s event t, M.Reachable s → P s → M.step s event t → P t)
    {s : State} (reachable : M.Reachable s) : P s := by
  induction reachable with
  | init initial => exact start _ initial
  | step earlier step ih => exact keep _ _ _ earlier ih step

theorem Reachable.path {s t : State} {events : List Event} (reachable : M.Reachable s)
    (path : M.Path s events t) : M.Reachable t := by
  induction path with
  | nil s => exact reachable
  | cons step _ ih => exact ih (reachable.step step)

/-- A property kept by every step is kept by every path. -/
theorem Path.invariant {P : State → Prop}
    (keep : ∀ s event t, P s → M.step s event t → P t)
    {s t : State} {events : List Event} (path : M.Path s events t) (start : P s) : P t := by
  induction path with
  | nil s => exact start
  | cons step _ ih => exact ih (keep _ _ _ start step)

end System

/-! ## Deterministic systems -/

section Deterministic

variable (next : State → Event → Option State)

/-- The state after a list of events, when every one of them has a step. -/
def exec : State → List Event → Option State
  | s, [] => some s
  | s, event :: events => (next s event).bind fun t => exec t events

/-- A deterministic system started in one state. -/
def System.ofFunction (start : State) : System State Event where
  init s := s = start
  step s event t := next s event = some t

@[simp] theorem exec_nil (s : State) : exec next s [] = some s := rfl

@[simp] theorem exec_cons (s : State) (event : Event) (events : List Event) :
    exec next s (event :: events) = (next s event).bind fun t => exec next t events := rfl

variable {next}

theorem exec_append {s t : State} {first second : List Event}
    (run : exec next s first = some t) :
    exec next s (first ++ second) = exec next t second := by
  induction first generalizing s with
  | nil =>
      cases run
      rfl
  | cons event first ih =>
      obtain ⟨u, step, rest⟩ := Option.bind_eq_some_iff.mp run
      rw [List.cons_append, exec_cons, step, Option.bind_some, ih rest]

theorem exec_concat (s : State) (events : List Event) (event : Event) :
    exec next s (events ++ [event]) = (exec next s events).bind fun t => next t event := by
  induction events generalizing s with
  | nil =>
      rw [List.nil_append, exec_cons, exec_nil, Option.bind_some]
      cases next s event <;> rfl
  | cons first events ih =>
      rw [List.cons_append, exec_cons, exec_cons, Option.bind_assoc]
      exact congrArg _ (funext fun t => ih t)

/-- **The history rule.** What holds before the first event, and is kept by each
event of the events so far and the state together, holds after every run. -/
theorem exec_history {P : List Event → State → Prop} {s t : State} {events : List Event}
    (start : P [] s)
    (grow : ∀ events t event u, exec next s events = some t → P events t →
      next t event = some u → P (events ++ [event]) u)
    (run : exec next s events = some t) : P events t := by
  induction events using List.reverseRecOn generalizing t with
  | nil =>
      cases run
      exact start
  | append_singleton events event ih =>
      rw [exec_concat] at run
      obtain ⟨u, earlier, step⟩ := Option.bind_eq_some_iff.mp run
      exact grow events u event t earlier (ih earlier) step

theorem exec_reachable {start s t : State} {events : List Event}
    (reachable : (System.ofFunction next start).Reachable s)
    (run : exec next s events = some t) : (System.ofFunction next start).Reachable t := by
  induction events generalizing s with
  | nil =>
      cases run
      exact reachable
  | cons event events ih =>
      obtain ⟨u, step, rest⟩ := Option.bind_eq_some_iff.mp run
      exact ih (reachable.step step) rest

/-- The property holds in every state the run visits. -/
def HoldsAlong (next : State → Event → Option State) (P : State → Prop) (s : State)
    (events : List Event) : Prop :=
  ∀ before after t, events = before ++ after → exec next s before = some t → P t

/-- Every step the run takes meets the condition. -/
def StepsMeet (next : State → Event → Option State) (C : State → Event → Prop) (s : State)
    (events : List Event) : Prop :=
  ∀ before event after t, events = before ++ event :: after →
    exec next s before = some t → C t event

/-- The empty run takes no step. -/
theorem stepsMeet_nil (C : State → Event → Prop) (s : State) : StepsMeet next C s [] := by
  intro before event after t split
  cases before <;> cases split

theorem StepsMeet.head {C : State → Event → Prop} {s : State} {event : Event}
    {events : List Event} (meets : StepsMeet next C s (event :: events)) : C s event :=
  meets [] event events s rfl rfl

theorem stepsMeet_cons {C : State → Event → Prop} {s t : State} {event : Event}
    {events : List Event} (step : next s event = some t) :
    StepsMeet next C s (event :: events) ↔ C s event ∧ StepsMeet next C t events := by
  constructor
  · intro meets
    refine ⟨meets.head, ?_⟩
    intro before later after u split run
    exact meets (event :: before) later after u (by rw [split, List.cons_append])
      (by rw [exec_cons, step, Option.bind_some, run])
  · rintro ⟨first, meets⟩ before later after u split run
    cases before with
    | nil =>
        cases split
        cases run
        exact first
    | cons _ before =>
        rw [List.cons_append, List.cons.injEq] at split
        obtain ⟨rfl, split⟩ := split
        rw [exec_cons, step, Option.bind_some] at run
        exact meets before later after u split run

theorem holdsAlong_cons {P : State → Prop} {s t : State} {event : Event} {events : List Event}
    (step : next s event = some t) :
    HoldsAlong next P s (event :: events) ↔ P s ∧ HoldsAlong next P t events := by
  constructor
  · intro holds
    refine ⟨holds [] (event :: events) s rfl rfl, ?_⟩
    intro before after u split run
    exact holds (event :: before) after u (by rw [split, List.cons_append])
      (by rw [exec_cons, step, Option.bind_some, run])
  · rintro ⟨first, holds⟩ before after u split run
    cases before with
    | nil =>
        cases run
        exact first
    | cons _ before =>
        rw [List.cons_append, List.cons.injEq] at split
        obtain ⟨rfl, split⟩ := split
        rw [exec_cons, step, Option.bind_some] at run
        exact holds before after u split run

/-- Events that meet the condition in every state. -/
theorem stepsMeet_of_forall {C : State → Event → Prop} {events : List Event}
    (meets : ∀ event ∈ events, ∀ s, C s event) (s : State) : StepsMeet next C s events := by
  intro before event after t split _
  exact meets event (split ▸ List.mem_append_right _ List.mem_cons_self) t

theorem stepsMeet_append {C : State → Event → Prop} {s t : State} {first second : List Event}
    (run : exec next s first = some t) :
    StepsMeet next C s (first ++ second) ↔
      StepsMeet next C s first ∧ StepsMeet next C t second := by
  induction first generalizing s with
  | nil =>
      cases run
      exact ⟨fun meets => ⟨stepsMeet_nil C _, meets⟩, And.right⟩
  | cons event first ih =>
      obtain ⟨u, step, rest⟩ := Option.bind_eq_some_iff.mp run
      rw [List.cons_append, stepsMeet_cons step, stepsMeet_cons step, ih rest, and_assoc]

/-- What every step that meets the condition keeps, a run of such steps
keeps. -/
theorem exec_invariant {P : State → Prop} {C : State → Event → Prop}
    (keep : ∀ s event t, P s → C s event → next s event = some t → P t)
    {s t : State} {events : List Event} (run : exec next s events = some t)
    (meets : StepsMeet next C s events) (start : P s) : P t := by
  induction events generalizing s with
  | nil =>
      cases run
      exact start
  | cons event events ih =>
      obtain ⟨u, step, rest⟩ := Option.bind_eq_some_iff.mp run
      obtain ⟨first, later⟩ := (stepsMeet_cons step).mp meets
      exact ih rest later (keep _ _ _ start first step)

/-- A run all of whose steps meet a condition is a run of the restricted
system. -/
theorem exec_restrict_reachable {C : State → Event → Prop} {start s t : State}
    {events : List Event}
    (reachable : ((System.ofFunction next start).restrict C).Reachable s)
    (meets : StepsMeet next C s events) (run : exec next s events = some t) :
    ((System.ofFunction next start).restrict C).Reachable t := by
  induction events generalizing s with
  | nil =>
      cases run
      exact reachable
  | cons event events ih =>
      obtain ⟨u, step, rest⟩ := Option.bind_eq_some_iff.mp run
      obtain ⟨first, later⟩ := (stepsMeet_cons step).mp meets
      exact ih (reachable.step ⟨first, step⟩) later rest

/-- **Simulation.** When every step that meets the condition from a state with
the invariant is a step of another system, up to a view of states and events, a
run of such steps is a path of the other system. -/
theorem exec_simulates {State' : Type*} {Event' : Type*} {N : System State' Event'}
    {P : State → Prop} {C : State → Event → Prop} (view : State → State')
    (viewEvent : Event → Event')
    (simulate : ∀ s event t, P s → C s event → next s event = some t →
      P t ∧ N.step (view s) (viewEvent event) (view t))
    {s t : State} {events : List Event} (run : exec next s events = some t)
    (meets : StepsMeet next C s events) (start : P s) :
    N.Path (view s) (events.map viewEvent) (view t) := by
  induction events generalizing s with
  | nil =>
      cases run
      exact .nil _
  | cons event events ih =>
      obtain ⟨u, step, rest⟩ := Option.bind_eq_some_iff.mp run
      obtain ⟨first, later⟩ := (stepsMeet_cons step).mp meets
      obtain ⟨keeps, simulated⟩ := simulate s event u start first step
      exact .cons simulated (ih rest later keeps)

/-- What the steps of a run stand for, in order. -/
def trace {β : Type*} (next : State → Event → Option State)
    (label : State → Event → State → List β) (s : State) : List Event → List β
  | [] => []
  | event :: events =>
      match next s event with
      | none => []
      | some t => label s event t ++ trace next label t events

theorem trace_cons {β : Type*} {label : State → Event → State → List β} {s t : State}
    {event : Event} {events : List Event} (step : next s event = some t) :
    trace next label s (event :: events) = label s event t ++ trace next label t events := by
  rw [trace, step]

theorem trace_append {β : Type*} {label : State → Event → State → List β} {s t : State}
    {first second : List Event} (run : exec next s first = some t) :
    trace next label s (first ++ second) =
      trace next label s first ++ trace next label t second := by
  induction first generalizing s with
  | nil =>
      cases run
      rfl
  | cons event first ih =>
      obtain ⟨u, step, rest⟩ := Option.bind_eq_some_iff.mp run
      rw [List.cons_append, trace_cons step, trace_cons step, ih rest, List.append_assoc]

theorem trace_concat {β : Type*} {label : State → Event → State → List β} {s t u : State}
    {events : List Event} {event : Event} (run : exec next s events = some t)
    (step : next t event = some u) :
    trace next label s (events ++ [event]) = trace next label s events ++ label t event u := by
  rw [trace_append run, trace_cons step, trace, List.append_nil]

/-- **Refinement with stuttering.** When every step that meets the condition from
a state with the invariant stands for a run of another system, up to a view of
states, a run of such steps stands for a run of the other system. -/
theorem exec_refines {State' : Type*} {Event' : Type*} {next' : State' → Event' → Option State'}
    {P : State → Prop} {C : State → Event → Prop} {C' : State' → Event' → Prop}
    (view : State → State') (label : State → Event → State → List Event')
    (refine_step : ∀ s event t, P s → C s event → next s event = some t →
      P t ∧ exec next' (view s) (label s event t) = some (view t) ∧
        StepsMeet next' C' (view s) (label s event t))
    {s t : State} {events : List Event} (run : exec next s events = some t)
    (meets : StepsMeet next C s events) (start : P s) :
    exec next' (view s) (trace next label s events) = some (view t) ∧
      StepsMeet next' C' (view s) (trace next label s events) := by
  induction events generalizing s with
  | nil =>
      cases run
      exact ⟨rfl, stepsMeet_nil C' _⟩
  | cons event events ih =>
      obtain ⟨u, step, rest⟩ := Option.bind_eq_some_iff.mp run
      obtain ⟨first, later⟩ := (stepsMeet_cons step).mp meets
      obtain ⟨keeps, moved, met⟩ := refine_step s event u start first step
      obtain ⟨goesOn, meetsOn⟩ := ih rest later keeps
      rw [trace_cons step]
      exact ⟨(exec_append moved).trans goesOn, (stepsMeet_append moved).mpr ⟨met, meetsOn⟩⟩

/-- **A property that a step keeps exactly when it meets a condition holds along
a run exactly when all its steps meet the condition.** The invariant that keeps
it may say more than the property. -/
theorem exec_holds_iff {P Q : State → Prop} {C : State → Event → Prop}
    (weaker : ∀ s, P s → Q s)
    (keep : ∀ s event t, P s → C s event → next s event = some t → P t)
    (breaks : ∀ s event t, P s → ¬ C s event → next s event = some t → ¬ Q t)
    {s t : State} {events : List Event} (start : P s) (run : exec next s events = some t) :
    HoldsAlong next Q s events ↔ StepsMeet next C s events := by
  induction events generalizing s with
  | nil =>
      refine ⟨fun _ => stepsMeet_nil C _, ?_⟩
      rintro - before after u split run'
      obtain ⟨rfl, -⟩ := List.append_eq_nil_iff.mp split.symm
      cases run'
      exact weaker _ start
  | cons event events ih =>
      obtain ⟨u, step, rest⟩ := Option.bind_eq_some_iff.mp run
      rw [holdsAlong_cons step, stepsMeet_cons step]
      constructor
      · rintro ⟨-, later⟩
        have meets : C s event := by
          by_contra fails
          exact breaks s event u start fails step (later [] events u rfl rfl)
        exact ⟨meets, (ih (keep s event u start meets step) rest).mp later⟩
      · rintro ⟨meets, later⟩
        exact ⟨weaker s start, (ih (keep s event u start meets step) rest).mpr later⟩

/-- A property that holds after a step exactly if it held before and the step
meets a condition holds at the end of a run exactly if all its steps meet the
condition. -/
theorem exec_iff_stepsMeet {P Q : State → Prop} {C : State → Event → Prop}
    (keep : ∀ s event t, P s → next s event = some t → P t)
    (exact_step : ∀ s event t, P s → next s event = some t → (Q t ↔ Q s ∧ C s event))
    {s t : State} {events : List Event} (invariant : P s)
    (run : exec next s events = some t) : Q t ↔ Q s ∧ StepsMeet next C s events := by
  induction events generalizing s with
  | nil =>
      cases run
      exact (and_iff_left (stepsMeet_nil C _)).symm
  | cons event events ih =>
      obtain ⟨u, step, rest⟩ := Option.bind_eq_some_iff.mp run
      rw [ih (keep s event u invariant step) rest, exact_step s event u invariant step,
        stepsMeet_cons step, and_assoc]

/-- The steps that meet a condition that can be decided. -/
def guarded (next : State → Event → Option State) (C : State → Event → Prop)
    [∀ s event, Decidable (C s event)] (s : State) (event : Event) : Option State :=
  if C s event then next s event else none

theorem guarded_eq_some {C : State → Event → Prop} [∀ s event, Decidable (C s event)] {s t : State}
    {event : Event} : guarded next C s event = some t ↔ C s event ∧ next s event = some t := by
  rw [guarded]
  split_ifs with meets
  · exact (and_iff_right meets).symm
  · exact ⟨nofun, fun step => absurd step.1 meets⟩

/-- A run of such steps. -/
theorem exec_guarded {C : State → Event → Prop} [∀ s event, Decidable (C s event)] {s t : State}
    {events : List Event} (run : exec (guarded next C) s events = some t) :
    exec next s events = some t ∧ StepsMeet next C s events := by
  induction events generalizing s with
  | nil => exact ⟨run, stepsMeet_nil C s⟩
  | cons event events ih =>
      obtain ⟨u, step, rest⟩ := Option.bind_eq_some_iff.mp run
      obtain ⟨meets, step⟩ := guarded_eq_some.mp step
      obtain ⟨run, later⟩ := ih rest
      exact ⟨by rw [exec_cons, step, Option.bind_some, run],
        (stepsMeet_cons step).mpr ⟨meets, later⟩⟩

theorem exec_guarded_of_stepsMeet {C : State → Event → Prop} [∀ s event, Decidable (C s event)]
    {s t : State} {events : List Event} (run : exec next s events = some t)
    (meets : StepsMeet next C s events) : exec (guarded next C) s events = some t := by
  induction events generalizing s with
  | nil => exact run
  | cons event events ih =>
      obtain ⟨u, step, rest⟩ := Option.bind_eq_some_iff.mp run
      obtain ⟨first, later⟩ := (stepsMeet_cons step).mp meets
      rw [exec_cons, guarded_eq_some.mpr ⟨first, step⟩, Option.bind_some, ih rest later]

end Deterministic

end Transition
