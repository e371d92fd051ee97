import Os2018.Uthreads.Preemption
import Os2018.Uthreads.Refinement

/-!
# Switches act at once

A switch takes many statements, and signals can interrupt a thread anywhere that
they are unblocked, so that calls of `switch_threads` are in progress on several
stacks at a time. Seen from the library's data, each switch still takes place at
once. `Machine.settled` lets a call that has stopped the running thread finish
the choice of the next one. In runs without a signal in the gap, every statement
then either leaves the data alone or is one atomic step: a call is the step of
that call, and the choice of the next thread in a signal's handler is a timer
switch (`machine_refines_library`).

With the refinement of the library this goes all the way down: signals, frames,
contexts and masks together carry out round-robin scheduling with joins.
-/

set_option autoImplicit false

namespace Os2018.Uthreads

open Transition

variable {m n : Machine}

/-! ## Atomic steps -/

/-- The library's data once a call that stops its thread has picked the next. -/
def Machine.settled (m : Machine) : State :=
  match m.chain with
  | [] => m.lib
  | frame :: _ =>
      if frame.signum ≠ .sigvtalrm ∧ frame.point.Early then
        (switchThreads m.lib frame.signum).getD m.lib
      else m.lib

/-- The atomic steps that a step of the machine stands for. -/
def Machine.atomicSteps (m : Machine) (event : MachineEvent) (_ : Machine) : List Event :=
  match event with
  | .call call => [.call call]
  | .signal => []
  | .tick => if m.chain.head? = some ⟨.sigvtalrm, .saved⟩ then [.timer] else []

/-- The atomic steps of a run. -/
def atomicEvents (events : List MachineEvent) : List Event :=
  trace Machine.next Machine.atomicSteps initialMachine events

theorem settled_of_calm
    (calm : ∀ frame rest, m.chain = frame :: rest → ¬ frame.Pending) : m.settled = m.lib := by
  rw [Machine.settled]
  split
  · rfl
  next frame rest chain =>
    rw [if_neg]
    exact calm frame rest chain

theorem settled_of_pending {frame : Frame} {rest : List Frame} (chain : m.chain = frame :: rest)
    (pending : frame.Pending) {lib : State}
    (switched : switchThreads m.lib frame.signum = some lib) : m.settled = lib := by
  have condition : frame.signum ≠ .sigvtalrm ∧ frame.point.Early := pending
  rw [Machine.settled, chain]
  dsimp only
  rw [if_pos condition, switched, Option.getD_some]

/-- A statement before the choice of the next thread leaves the choice as it
is. -/
theorem settled_move {frame frame' : Frame} {rest : List Frame} {env : Int → Option Context}
    {sa handler : Handler} (chain : m.chain = frame :: rest) (signum : frame'.signum = frame.signum)
    (same : frame'.Pending ↔ frame.Pending) :
    Machine.settled { m with env, sa, handler, chain := frame' :: rest } = m.settled := by
  rw [Machine.settled, Machine.settled, chain]
  dsimp only
  rw [signum]
  rw [Frame.Pending, Frame.Pending, signum] at same
  simp only [same]

/-- When all threads without flags are ready, there is a next thread: the main
thread is one of them. -/
theorem Idle.dispatch_some {s : State} (idle : Idle s) : ∃ t, s.dispatch = some t := by
  have ready := (idle.ready_iff mainThreadId).mpr idle.main
  cases queue : s.ready with
  | nil =>
      rw [queue] at ready
      exact absurd ready List.not_mem_nil
  | cons next rest =>
      obtain ⟨thread, found, -⟩ : ∃ thread, s.uthreads next = some thread ∧ _ :=
        (idle.ready_iff next).mp (by rw [queue]; exact List.mem_cons_self)
      exact ⟨_, by rw [State.dispatch, queue]; exact modify_eq_some.mpr ⟨thread, found, rfl⟩⟩

/-! ## Steps of the machine -/

/-- The step stands for the atomic steps. -/
def Refines (m : Machine) (event : MachineEvent) (n : Machine) : Prop :=
  exec State.next m.settled (m.atomicSteps event n) = some n.settled ∧
    StepsMeet State.next SparesWaiting m.settled (m.atomicSteps event n)

theorem refines_of_stutter {event : MachineEvent} (steps : m.atomicSteps event n = [])
    (same : n.settled = m.settled) : Refines m event n := by
  rw [Refines, steps, same]
  exact ⟨rfl, stepsMeet_nil _ _⟩

theorem refines_of_step {event : MachineEvent} (atomic : Event)
    (steps : m.atomicSteps event n = [atomic]) (step : m.settled.next atomic = some n.settled)
    (spares : SparesWaiting m.settled atomic) : Refines m event n := by
  rw [Refines, steps, exec_cons, step]
  exact ⟨rfl, (stepsMeet_cons step).mpr ⟨spares, stepsMeet_nil _ _⟩⟩

theorem Stable.refines_call (stable : Stable m) {call : Call} (own : m.chain = [])
    (spares : SparesWaiting m.lib (.call call)) (called : m.call call = some n) :
    Refines m (.call call) n := by
  have settled : m.settled = m.lib := by rw [Machine.settled, own]
  have running : Running m.lib := stable.agrees.running fun frame rest chain => by
    cases own.symm.trans chain
  refine refines_of_step (.call call) rfl ?_ (settled ▸ spares)
  rw [settled, State.next]
  rcases call_cases called with ⟨lib, value, masked, run, rfl⟩ | ⟨lib, signum, run, rfl⟩
  · rw [run]
    dsimp only
    rw [Machine.settled]
    simp only [own]
  · obtain ⟨direct, idle, -⟩ := running.call spares run
    obtain ⟨next, picked⟩ := idle.dispatch_some
    rw [run]
    dsimp only
    have pending : Frame.Pending ⟨signum, .entry⟩ := ⟨direct, .inl rfl⟩
    have switched : switchThreads lib signum = some next := picked
    have after :
        Machine.settled { m with lib, mask := false, chain := [⟨signum, .entry⟩] } = next :=
      settled_of_pending rfl pending switched
    rw [after, switched]

theorem Stable.refines_signal (stable : Stable m) (outside : OutsideGap m .signal)
    (delivered : m.handler = .switchThreads) :
    Refines m .signal { m with mask := true, chain := ⟨.sigvtalrm, .entry⟩ :: m.chain } := by
  refine refines_of_stutter rfl ?_
  rw [settled_of_calm fun frame rest chain => stable.guarded.not_pending delivered outside chain,
    settled_of_calm]
  rintro frame rest chain pending
  cases chain
  exact pending.1 rfl

theorem Stable.refines_tick (stable : Stable m) {frame : Frame} {rest : List Frame}
    (chain : m.chain = frame :: rest) (ticked : Ticked m frame rest n) : Refines m .tick n := by
  have notSaved : frame.point ≠ .saved → m.atomicSteps .tick n = [] := by
    intro other
    rw [Machine.atomicSteps, if_neg]
    rw [chain, List.head?_cons, Option.some.injEq]
    rintro rfl
    exact other rfl
  have settledAfter : ∀ frame' : Frame, ¬ frame'.Pending → n.chain = frame' :: rest →
      n.settled = n.lib := by
    intro frame' calm after
    exact settled_of_calm (top_of_cons after calm)
  have settledBefore : ¬ frame.Pending → m.settled = m.lib := by
    intro calm
    exact settled_of_calm (top_of_cons chain calm)
  cases ticked with
  | setIgnore point | ignore point | save point =>
      refine refines_of_stutter (notSaved (by rw [point]; decide)) ?_
      exact settled_move chain rfl (by simp [Frame.Pending, Point.Early, point])
  | pick point switched =>
      rename_i lib
      have after : Machine.settled
          { m with lib, chain := { frame with point := .picked } :: rest } = lib :=
        settledAfter _ (by simp [Frame.Pending, Point.Early]) rfl
      by_cases handler : frame.signum = .sigvtalrm
      · -- The handler's choice is the timer switch.
        have isSaved : frame = ⟨.sigvtalrm, .saved⟩ := by
          cases frame
          cases handler
          cases point
          rfl
        refine refines_of_step .timer ?_ ?_ trivial
        · rw [Machine.atomicSteps, if_pos (by rw [chain, isSaved]; rfl)]
        · rw [after, settledBefore fun pending => pending.1 handler]
          rw [handler] at switched
          exact switched
      · -- The choice was taken into account when the call stopped the thread.
        refine refines_of_stutter ?_ ?_
        · rw [Machine.atomicSteps, if_neg]
          rw [chain, List.head?_cons, Option.some.injEq]
          rintro rfl
          exact handler rfl
        · have pending : frame.Pending := ⟨handler, .inr (.inr (.inr point))⟩
          rw [after, settled_of_pending chain pending switched]
  | jump point found =>
      refine refines_of_stutter (notSaved (by rw [point]; decide)) ?_
      rw [settledBefore (by simp [Frame.Pending, Point.Early, point])]
      exact settled_of_calm (top_of_mem (stable.parked.contexts _ _ found))
  | leave point =>
      refine refines_of_stutter (notSaved (by rw [point]; decide)) ?_
      rw [settledBefore (by simp [Frame.Pending, Point.Early, point])]
      exact settled_of_calm (top_of_mem (stable.parked.below chain))
  | setHandler point | install point | arm point | resetHandler point | reinstall point
    | rearm point =>
      refine refines_of_stutter (notSaved (by rw [point]; decide)) ?_
      rw [settledBefore (by simp [Frame.Pending, Point.Early, point])]
      exact settledAfter _ (by simp [Frame.Pending, Point.Early]) rfl

theorem Stable.refines {event : MachineEvent} (stable : Stable m) (outside : OutsideGap m event)
    (step : m.next event = some n) : Refines m event n := by
  rcases next_cases step with ⟨call, rfl, own, called⟩ | ⟨rfl, -, delivered, rfl⟩ |
    ⟨rfl, frame, rest, chain, ticked⟩
  · exact stable.refines_call own outside called
  · exact stable.refines_signal outside delivered
  · exact stable.refines_tick chain ticked

/-! ## Runs of the machine -/

/-- **Atomicity.** In a run without a signal in the gap of a direct switch and
without the termination of a waiting thread, the library's data go through a run
of atomic calls and timer switches, and carry out round-robin scheduling with
joins under the same requests. -/
theorem machine_refines_library {events : List MachineEvent}
    (run : exec Machine.next initialMachine events = some m)
    (outside : StepsMeet Machine.next OutsideGap initialMachine events) :
    exec State.next uthreadInit (atomicEvents events) = some m.settled ∧
      (JoinScheduler.system threadIds mainThreadId).Path (JoinScheduler.start mainThreadId)
        ((atomicEvents events).map request) m.settled.schedule := by
  have refined : exec State.next initialMachine.settled (atomicEvents events) = some m.settled ∧
      StepsMeet State.next SparesWaiting initialMachine.settled (atomicEvents events) :=
    exec_refines (P := Stable) (C := OutsideGap) Machine.settled Machine.atomicSteps
      (fun _ _ _ stable outside step =>
        ⟨stable.next outside step, stable.refines outside step⟩)
      run outside stable_initial
  have path := running_init.path refined.1 refined.2
  rw [schedule_init] at path
  exact ⟨refined.1, path⟩

/-- The new thread blocks itself: the call has stopped it, and what is left of the
switch is one atomic step with the call. -/
theorem machine_refines_library_selfBlock : ∃ m,
    exec Machine.next initialMachine selfBlockEvents = some m ∧ m.lib.currentThread = 1 ∧
      m.settled.currentThread = 0 ∧
      exec State.next uthreadInit [.call .spawn, .timer, .call (.block 1)] = some m.settled := by
  have result : (exec Machine.next initialMachine selfBlockEvents).map
      (fun m => (m.lib.currentThread, m.settled.currentThread)) = some (1, 0) := by decide +kernel
  have atomic : atomicEvents selfBlockEvents = [.call .spawn, .timer, .call (.block 1)] := by
    decide +kernel
  obtain ⟨m, run, facts⟩ := Option.map_eq_some_iff.mp result
  obtain ⟨current, settled⟩ := Prod.ext_iff.mp facts
  have outside : StepsMeet Machine.next OutsideGap initialMachine selfBlockEvents := by
    refine (stepsMeet_cons rfl).mpr ⟨trivial, (stepsMeet_cons rfl).mpr ⟨?_, ?_⟩⟩
    · intro frame rest chain
      cases chain
    · exact stepsMeet_of_forall (by simp [OutsideGap, SparesWaiting]) _
  refine ⟨m, run, current, settled, ?_⟩
  rw [← atomic]
  exact (machine_refines_library run outside).1

end Os2018.Uthreads
