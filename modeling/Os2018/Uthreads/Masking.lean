import Os2018.Uthreads.Machine

/-!
# The signal mask, the handler and the timer

Every function of the interface that changes the library blocks `SIGVTALRM`
first and unblocks it before it returns or switches, and `switch_threads` ignores
the signal for a while and installs the handler again before it jumps or
returns. A context carries the mask with which it was saved.

Three paths return without unblocking the signal: `uthread_terminate` and
`uthread_resume` of an invalid id, and `uthread_block` of a thread that is
blocked already. Every thread's own code can be preempted exactly as long as no
call takes one of them (`preemptible_iff`).
-/

set_option autoImplicit false

namespace Os2018.Uthreads

open Transition

variable {m n : Machine} {s t : State} {tid : Int}

/-! ## Statement -/

/-- When a thread executes its own code, `SIGVTALRM` is unblocked, its handler is
`switch_threads`, and the timer is armed. -/
def Machine.Preemptible (m : Machine) : Prop :=
  m.chain = [] → m.mask = false ∧ m.handler = .switchThreads ∧ m.armed = true

/-- The call returns with the signal blocked. -/
def LeavesMasked (s : State) : Call → Prop
  | .terminate tid | .resume tid => s.tids.isValid tid = false
  | .block tid => s.tids.isValid tid = true ∧ tid ≠ mainThreadId ∧ tid ≠ s.currentThread ∧
      ∃ thread, s.uthreads tid = some thread ∧ thread.blockedDirectly = true
  | .spawn | .sync _ => False

/-- The event is no call that returns with the signal blocked. -/
def RestoresMask (m : Machine) (event : MachineEvent) : Prop :=
  ∀ call, event = .call call → ¬ LeavesMasked m.lib call

/-! ## How the calls end -/

theorem leavesMasked_of_block {value : Int}
    (run : uthreadBlock s tid = some (t, .returned value true)) : LeavesMasked s (.block tid) := by
  rw [uthreadBlock] at run
  split_ifs at run with invalid isCurrent
  · cases run
  · obtain ⟨s', -, run⟩ := Option.bind_eq_some_iff.mp run
    cases run
  · obtain ⟨valid, notMain⟩ : s.tids.isValid tid = true ∧ tid ≠ mainThreadId := by
      simpa using invalid
    obtain ⟨thread, found, run⟩ := Option.bind_eq_some_iff.mp run
    split_ifs at run with free
    · obtain ⟨s', -, run⟩ := Option.bind_eq_some_iff.mp run
      cases run
    · exact ⟨valid, notMain, Ne.symm isCurrent, thread, found, by simpa using free⟩

theorem leavesMasked_of_resume {value : Int}
    (run : uthreadResume s tid = some (t, .returned value true)) :
    LeavesMasked s (.resume tid) := by
  rw [uthreadResume] at run
  split_ifs at run with invalid noEffect
  · rw [LeavesMasked]
    simpa using invalid
  · cases run
  · obtain ⟨thread, -, run⟩ := Option.bind_eq_some_iff.mp run
    by_cases blocked : thread.blockedDirectly = true
    · rw [if_pos blocked] at run
      obtain ⟨s', -, run⟩ := Option.bind_eq_some_iff.mp run
      cases run
    · rw [if_neg blocked] at run
      cases run

/-- There are no other paths that return with the signal blocked. -/
theorem leavesMasked_of_run {call : Call} {value : Int}
    (run : call.run s = some (t, .returned value true)) : LeavesMasked s call := by
  cases call with
  | spawn =>
      obtain ⟨value', returns⟩ := uthreadSpawn_returns s
      have result : uthreadSpawn s = (t, .returned value true) := Option.some.inj run
      rw [result] at returns
      cases returns
  | terminate tid =>
      rcases uthreadTerminate_cases run with ⟨invalid, -, -⟩ | ⟨-, ending⟩ |
        ⟨-, -, _, -, -, ⟨-, -, ending⟩ | ⟨-, -, ending⟩⟩
      · exact invalid
      · cases ending
      · cases ending
      · cases ending
  | block tid => exact leavesMasked_of_block run
  | resume tid => exact leavesMasked_of_resume run
  | sync tid =>
      rcases uthreadSync_cases run with ⟨-, ending⟩ | ⟨-, -, _, _, -, -, -, ending⟩
      · cases ending
      · cases ending

/-- On these paths the library is left as it is. -/
theorem run_of_leavesMasked {call : Call} (leaves : LeavesMasked s call) :
    ∃ value, call.run s = some (s, .returned value true) := by
  cases call with
  | spawn | sync tid => exact leaves.elim
  | terminate tid => exact ⟨-1, uthreadTerminate_invalid leaves⟩
  | resume tid => exact ⟨-1, uthreadResume_invalid leaves⟩
  | block tid =>
      obtain ⟨valid, notMain, notCurrent, thread, found, blocked⟩ := leaves
      exact ⟨0, by simp [Call.run, uthreadBlock, valid, notMain, notCurrent.symm, found, blocked]⟩

/-! ## The invariant -/

/-- Calls in progress and the mask that goes with them: a handler runs with the
signal blocked, what it interrupted runs with the signal unblocked, and so do
direct calls and a thread's own code. -/
def Stacked : List Frame → Bool → Prop
  | [], mask => mask = false
  | frame :: rest, mask => mask = decide (frame.signum = .sigvtalrm) ∧ Stacked rest false

theorem Stacked.move {frame frame' : Frame} {rest : List Frame} {mask : Bool}
    (stacked : Stacked (frame :: rest) mask) (signum : frame'.signum = frame.signum) :
    Stacked (frame' :: rest) mask :=
  ⟨signum ▸ stacked.1, stacked.2⟩

/-- The handler has been written to `sa`. -/
def Point.HandsOver (point : Point) : Prop :=
  point = .handlerSet ∨ point = .installed ∨ point = .armed ∨ point = .handlerReset ∨
    point = .reinstalled ∨ point = .rearmed

/-- Masks go with the calls in progress, here and in the saved contexts; the
handler is installed wherever the signal is not ignored, and is in `sa` from the
statement that writes it there to the jump or the return; the timer is armed. -/
structure Delivers (m : Machine) : Prop where
  stacked : Stacked m.chain m.mask
  contexts : ∀ i context, m.env i = some context → Stacked context.chain context.mask
  handler : (∀ frame rest, m.chain = frame :: rest → ¬ frame.point.Ignoring) →
    m.handler = .switchThreads
  sa : ∀ frame rest, m.chain = frame :: rest → frame.point.HandsOver → m.sa = .switchThreads
  armed : m.armed = true

theorem delivers_initial : Delivers initialMachine where
  stacked := rfl
  contexts := fun _ _ found => by cases found
  handler := fun _ => rfl
  sa := fun _ _ _ _ => rfl
  armed := rfl

theorem Delivers.preemptible (delivers : Delivers m) : m.Preemptible := by
  intro own
  have unmasked := delivers.stacked
  rw [own] at unmasked
  refine ⟨unmasked, delivers.handler ?_, delivers.armed⟩
  intro frame rest chain
  cases own.symm.trans chain

/-- A call that unblocks the signal. -/
theorem Delivers.call (delivers : Delivers m) {call : Call} (own : m.chain = [])
    (restores : ¬ LeavesMasked m.lib call) (called : m.call call = some n) : Delivers n := by
  have installed : m.handler = .switchThreads := by
    refine delivers.handler ?_
    intro frame rest chain
    cases own.symm.trans chain
  rcases call_cases called with ⟨lib, value, masked, run, rfl⟩ | ⟨lib, signum, run, rfl⟩
  · have unmasked : masked = false := by
      cases masked with
      | false => rfl
      | true => exact absurd (leavesMasked_of_run run) restores
    refine ⟨?_, ?_, fun _ => installed, delivers.sa, delivers.armed⟩
    · rw [own]
      exact unmasked
    · dsimp only
      split_ifs
      · exact forall_update_env delivers.contexts rfl
      · exact delivers.contexts
  · refine ⟨⟨?_, rfl⟩, delivers.contexts, fun _ => installed, ?_, delivers.armed⟩
    · exact (decide_eq_false (switching_direct run)).symm
    · rintro _ _ ⟨⟩ handsOver
      simp [Point.HandsOver] at handsOver

/-- The statements of `switch_threads`. -/
theorem Delivers.tick (delivers : Delivers m) {frame : Frame} {rest : List Frame}
    (chain : m.chain = frame :: rest) (ticked : Ticked m frame rest n) : Delivers n := by
  have stacked := delivers.stacked
  rw [chain] at stacked
  have installed : ¬ frame.point.Ignoring → m.handler = .switchThreads := by
    intro calm
    exact delivers.handler (top_of_cons chain calm)
  have handed := delivers.sa frame rest chain
  -- The signal is ignored, so there is nothing to show about the handler.
  have onTop : ∀ {handler : Handler} (frame' : Frame), frame'.point.Ignoring →
      (∀ other below, frame' :: rest = other :: below → ¬ other.point.Ignoring) →
        handler = .switchThreads :=
    fun frame' ignoring calm => absurd ignoring (calm frame' rest rfl)
  -- The handler has not been written to `sa`, so there is nothing to show about that.
  have early : ∀ {sa : Handler} (frame' : Frame), ¬ frame'.point.HandsOver →
      ∀ other below, frame' :: rest = other :: below → other.point.HandsOver →
        sa = .switchThreads := by
    rintro sa frame' notYet _ _ ⟨⟩ handsOver
    exact absurd handsOver notYet
  cases ticked with
  | setIgnore point =>
      refine ⟨stacked.move rfl, delivers.contexts, fun _ => installed ?_, ?_, delivers.armed⟩
      · simp [Point.Ignoring, point]
      · exact early _ (by simp [Point.HandsOver])
  | ignore point =>
      refine ⟨stacked.move rfl, delivers.contexts, ?_, ?_, delivers.armed⟩
      · exact onTop _ (.inl rfl)
      · exact early _ (by simp [Point.HandsOver])
  | save point =>
      refine ⟨stacked.move rfl, forall_update_env delivers.contexts ?_, ?_, ?_, delivers.armed⟩
      · exact stacked.move rfl
      · exact onTop _ (.inr (.inl rfl))
      · exact early _ (by simp [Point.HandsOver])
  | pick point switched =>
      refine ⟨stacked.move rfl, delivers.contexts, ?_, ?_, delivers.armed⟩
      · exact onTop _ (.inr (.inr (.inl rfl)))
      · exact early _ (by simp [Point.HandsOver])
  | setHandler point =>
      refine ⟨stacked.move rfl, delivers.contexts, ?_, fun _ _ _ _ => rfl, delivers.armed⟩
      exact onTop _ (.inr (.inr (.inr rfl)))
  | resetHandler point =>
      refine ⟨stacked.move rfl, delivers.contexts, fun _ => installed ?_, fun _ _ _ _ => rfl,
        delivers.armed⟩
      simp [Point.Ignoring, point]
  | install point | reinstall point =>
      have isHandler : m.sa = .switchThreads := handed (by simp [Point.HandsOver, point])
      exact ⟨stacked.move rfl, delivers.contexts, fun _ => isHandler, fun _ _ _ _ => isHandler,
        delivers.armed⟩
  | arm point | rearm point =>
      refine ⟨stacked.move rfl, delivers.contexts, fun _ => installed ?_, fun _ _ _ _ => handed ?_,
        rfl⟩
      · simp [Point.Ignoring, point]
      · simp [Point.HandsOver, point]
  | jump point found =>
      refine ⟨delivers.contexts _ _ found, delivers.contexts, fun _ => installed ?_,
        fun _ _ _ _ => handed ?_, delivers.armed⟩
      · simp [Point.Ignoring, point]
      · simp [Point.HandsOver, point]
  | leave point =>
      refine ⟨?_, delivers.contexts, fun _ => installed ?_, fun _ _ _ _ => handed ?_,
        delivers.armed⟩
      · dsimp only
        split_ifs with isHandler
        · exact stacked.2
        · rw [stacked.1, decide_eq_false isHandler]
          exact stacked.2
      · simp [Point.Ignoring, point]
      · simp [Point.HandsOver, point]

theorem Delivers.next {event : MachineEvent} (delivers : Delivers m)
    (restores : RestoresMask m event) (step : m.next event = some n) : Delivers n := by
  rcases next_cases step with ⟨call, rfl, own, called⟩ | ⟨rfl, unmasked, installed, rfl⟩ |
    ⟨rfl, frame, rest, chain, ticked⟩
  · exact delivers.call own (restores call rfl) called
  · have below := delivers.stacked
    rw [unmasked] at below
    refine ⟨⟨rfl, below⟩, delivers.contexts, fun _ => installed, ?_, delivers.armed⟩
    rintro _ _ ⟨⟩ handsOver
    simp [Point.HandsOver] at handsOver
  · exact delivers.tick chain ticked

/-- A call that leaves the signal blocked returns to a thread's own code. -/
theorem not_preemptible_of_leavesMasked {event : MachineEvent} (leaves : ¬ RestoresMask m event)
    (step : m.next event = some n) : ¬ n.Preemptible := by
  simp only [RestoresMask, not_forall, not_not] at leaves
  obtain ⟨call, rfl, leaves⟩ := leaves
  obtain ⟨value, run⟩ := run_of_leavesMasked leaves
  rcases next_cases step with ⟨call', isCall, own, called⟩ | ⟨isSignal, -⟩ | ⟨isTick, -⟩
  · cases isCall
    rw [Machine.call, run] at called
    cases called
    intro preemptible
    have unmasked : true = false := (preemptible own).1
    cases unmasked
  · cases isSignal
  · cases isTick

/-- **Preemption.** In every state of a run in which a thread executes its own
code, `SIGVTALRM` is unblocked, its handler is `switch_threads` and the timer is
armed, exactly if no call of the run is `uthread_terminate` or `uthread_resume`
of an invalid id or `uthread_block` of another thread that is blocked already. -/
theorem preemptible_iff {events : List MachineEvent}
    (run : exec Machine.next initialMachine events = some m) :
    HoldsAlong Machine.next Machine.Preemptible initialMachine events ↔
      StepsMeet Machine.next RestoresMask initialMachine events := by
  refine exec_holds_iff (P := Delivers) ?_ ?_ ?_ delivers_initial run
  · exact fun m delivers => delivers.preemptible
  · exact fun m event n delivers restores step => delivers.next restores step
  · exact fun m event n _ leaves step => not_preemptible_of_leavesMasked leaves step

/-- A new thread is dispatched for the first time, syncs with the main thread,
and the main thread goes on. -/
def selfSyncEvents : List MachineEvent :=
  [.call .spawn, .signal] ++ List.replicate 8 .tick ++ [.call (.sync 0)] ++ List.replicate 12 .tick

theorem preemptible_iff_selfSync :
    HoldsAlong Machine.next Machine.Preemptible initialMachine selfSyncEvents := by
  have result : (exec Machine.next initialMachine selfSyncEvents).isSome = true := by
    decide +kernel
  obtain ⟨m, run⟩ := Option.isSome_iff_exists.mp result
  refine (preemptible_iff run).mpr (stepsMeet_of_forall ?_ _)
  rintro event member m call rfl
  have spawnOrSync : call = .spawn ∨ call = .sync 0 := by simpa [selfSyncEvents] using member
  rcases spawnOrSync with rfl | rfl
  · exact id
  · exact id

/-- **A failed call that masks the signal.** The main thread terminates a thread
that was never spawned. -/
theorem failed_terminate_masks : ∃ m,
    exec Machine.next initialMachine [.call (.terminate 1)] = some m ∧ ¬ m.Preemptible := by
  refine ⟨_, rfl, ?_⟩
  intro preemptible
  cases (preemptible rfl).1

end Os2018.Uthreads
