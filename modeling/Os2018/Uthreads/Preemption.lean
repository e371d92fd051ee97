import Os2018.Uthreads.Machine
import Os2018.Uthreads.Scheduler

/-!
# The queue under preemption

Between the statement that unblocks the signal and the `sigaction` that ignores
it, a thread that terminates, blocks or syncs itself has already changed the
library's data but is still the current thread. A signal delivered there puts it
into the queue as if it were merely preempted: a terminated thread is then in the
queue while its id is in the pool (`gap_signal_queues_terminated`). And one that
comes after `SIG_IGN` has been written to `sa` leaves the handler there, so that
`sigaction` does not ignore the signal at all.

At every other point the data are those of a running thread, and a signal does
no harm. In every run without a signal in that gap, and without the termination
of a waiting thread, the queue is safe in every state (`queue_safe`).
-/

set_option autoImplicit false

namespace Os2018.Uthreads

open Transition

variable {m n : Machine}

/-! ## Statement -/

/-- A direct call of `switch_threads` that has not picked the next thread. -/
def Frame.Pending (frame : Frame) : Prop := frame.signum ≠ .sigvtalrm ∧ frame.point.Early

/-- No signal is delivered to a direct call of `switch_threads` before its first
`sigaction`, which ignores the signal; and no call terminates a live thread that
waits for another. -/
def OutsideGap (m : Machine) : MachineEvent → Prop
  | .signal => ∀ frame rest, m.chain = frame :: rest → frame.signum ≠ .sigvtalrm →
      frame.point ≠ .entry ∧ frame.point ≠ .ignoreSet
  | .call call => SparesWaiting m.lib (.call call)
  | .tick => True

/-- No id of the pool is in the queue, or is the current thread other than in the
course of its own termination; the threads in the queue have no flag set and are
there once. -/
structure Machine.QueueSafe (m : Machine) : Prop where
  pooled_not_ready : ∀ id ∈ m.lib.tids.unusedIds.keys, id ∉ m.lib.ready
  pooled_not_current : m.lib.currentThread ∈ m.lib.tids.unusedIds.keys →
    ∃ frame rest, m.chain = frame :: rest ∧ frame.signum = .terminateSwitch ∧ frame.Pending
  ready_unblocked : ∀ i ∈ m.lib.ready, ∀ thread, m.lib.uthreads i = some thread →
    thread.blockedDirectly = false ∧ thread.syncBlocked = false
  ready_nodup : m.lib.ready.Nodup

/-! ## Where the signal is ignored -/

/-- A call between the two statements that ignore the signal, or between the two
installations of a handler. -/
def Frame.Shielded (frame : Frame) : Prop := frame.point = .ignoreSet ∨ frame.point.Ignoring

/-- In such a call `sa` and then the handler are `SIG_IGN`, and it is always the
innermost one. -/
structure Guarded (m : Machine) : Prop where
  masked : Masked m
  parked : Parked Frame.Shielded m
  prepared : ∀ frame rest, m.chain = frame :: rest → frame.point = .ignoreSet → m.sa = .ignore
  ignored : ∀ frame rest, m.chain = frame :: rest → frame.point.Ignoring → m.handler = .ignore

theorem Guarded.of_calm (masked : Masked m) (parked : Parked Frame.Shielded m)
    (calm : ∀ frame rest, m.chain = frame :: rest → ¬ frame.Shielded) : Guarded m where
  masked := masked
  parked := parked
  prepared := fun frame rest chain point => absurd (.inl point) (calm frame rest chain)
  ignored := fun frame rest chain ignoring => absurd (.inr ignoring) (calm frame rest chain)

theorem guarded_initial : Guarded initialMachine :=
  .of_calm masked_initial parked_initial fun _ _ chain => by cases chain

/-- A signal outside the gap is delivered to none of these calls: a handler masks
it until it ignores it. -/
theorem Guarded.not_shielded (guarded : Guarded m) (outside : OutsideGap m .signal)
    (unmasked : m.mask = false) (delivered : m.handler = .switchThreads) {frame : Frame}
    {rest : List Frame} (chain : m.chain = frame :: rest) : ¬ frame.Shielded := by
  rintro (point | ignoring)
  · have direct : frame.signum ≠ .sigvtalrm := fun isHandler => by
      cases unmasked.symm.trans (guarded.masked.here.top frame rest chain isHandler)
    exact (outside frame rest chain direct).2 point
  · cases delivered.symm.trans (guarded.ignored frame rest chain ignoring)

theorem Guarded.tick (guarded : Guarded m) {frame : Frame} {rest : List Frame}
    (chain : m.chain = frame :: rest) (masked : Masked n) (parked : Parked Frame.Shielded n)
    (ticked : Ticked m frame rest n) : Guarded n := by
  have prepared := guarded.prepared frame rest chain
  have ignored := guarded.ignored frame rest chain
  cases ticked with
  | setIgnore point =>
      refine ⟨masked, parked, fun _ _ _ _ => rfl, ?_⟩
      rintro _ _ ⟨⟩ ignoring
      simp [Point.Ignoring] at ignoring
  | ignore point =>
      refine ⟨masked, parked, ?_, fun _ _ _ _ => prepared point⟩
      rintro _ _ ⟨⟩ atSet
      cases atSet
  | save point =>
      refine ⟨masked, parked, ?_, fun _ _ _ _ => ignored (.inl point)⟩
      rintro _ _ ⟨⟩ atSet
      cases atSet
  | pick point =>
      refine ⟨masked, parked, ?_, fun _ _ _ _ => ignored (.inr (.inl point))⟩
      rintro _ _ ⟨⟩ atSet
      cases atSet
  | setHandler point =>
      refine ⟨masked, parked, ?_, fun _ _ _ _ => ignored (.inr (.inr (.inl point)))⟩
      rintro _ _ ⟨⟩ atSet
      cases atSet
  | jump point found =>
      exact .of_calm masked parked (top_of_mem (guarded.parked.contexts _ _ found))
  | leave point => exact .of_calm masked parked (top_of_mem (guarded.parked.below chain))
  | install | arm | resetHandler | reinstall | rearm =>
      refine .of_calm masked parked ?_
      rintro _ _ ⟨⟩
      simp [Frame.Shielded, Point.Ignoring]

theorem Guarded.next {event : MachineEvent} (guarded : Guarded m) (outside : OutsideGap m event)
    (step : m.next event = some n) : Guarded n := by
  have masked := guarded.masked.next step
  have parked : Parked Frame.Shielded n := by
    refine guarded.parked.next (fun signum => ?_) (fun isSignal frame rest chain => ?_) step
    · simp [Frame.Shielded, Point.Ignoring]
    · subst isSignal
      rcases next_cases step with ⟨call, isCall, -⟩ | ⟨-, unmasked, delivered, -⟩ | ⟨isTick, -⟩
      · cases isCall
      · exact guarded.not_shielded outside unmasked delivered chain
      · cases isTick
  rcases next_cases step with ⟨call, rfl, own, called⟩ | ⟨rfl, -, -, rfl⟩ |
    ⟨rfl, frame, rest, chain, ticked⟩
  · refine .of_calm masked parked ?_
    rcases call_cases called with ⟨lib, value, mask, -, rfl⟩ | ⟨lib, signum, -, rfl⟩
    · intro frame rest chain
      cases own.symm.trans chain
    · rintro _ _ ⟨⟩
      simp [Frame.Shielded, Point.Ignoring]
  · refine .of_calm masked parked ?_
    rintro _ _ ⟨⟩
    simp [Frame.Shielded, Point.Ignoring]
  · exact guarded.tick chain masked parked ticked

/-! ## The library's data at every point -/

/-- The data are those of a running thread, but in a pending call, where they
are what they will be once the call has left its thread. -/
structure LibAgrees (lib : State) (chain : List Frame) : Prop where
  running : (∀ frame rest, chain = frame :: rest → ¬ frame.Pending) → Running lib
  pending : ∀ frame rest, chain = frame :: rest → frame.Pending →
    Idle (lib.leave frame.signum) ∧ ∃ thread, lib.uthreads lib.currentThread = some thread

theorem Running.agrees {lib : State} {chain : List Frame} (running : Running lib)
    (calm : ∀ frame ∈ chain, ¬ frame.Pending) : LibAgrees lib chain where
  running := fun _ => running
  pending := fun frame rest isTop pending => absurd pending (top_of_mem calm frame rest isTop)

/-- Above a frame that is not pending. -/
theorem Running.agrees_cons {lib : State} {frame : Frame} (running : Running lib)
    (calm : ¬ frame.Pending) (rest : List Frame) : LibAgrees lib (frame :: rest) where
  running := fun _ => running
  pending := by
    have calmTop : ∀ frame' rest', frame :: rest = frame' :: rest' → ¬ frame'.Pending :=
      top_of_cons rfl calm
    exact fun frame' rest' isTop pending => absurd pending (calmTop frame' rest' isTop)

theorem LibAgrees.of_cons {lib : State} {frame : Frame} {rest : List Frame}
    (agrees : LibAgrees lib (frame :: rest)) (calm : ¬ frame.Pending) : Running lib :=
  agrees.running (top_of_cons rfl calm)

/-- A statement that stays before the choice of the next thread. -/
theorem LibAgrees.move {lib : State} {frame frame' : Frame} {rest : List Frame}
    (agrees : LibAgrees lib (frame :: rest)) (signum : frame'.signum = frame.signum)
    (same : frame'.Pending ↔ frame.Pending) : LibAgrees lib (frame' :: rest) where
  running := fun calm => agrees.of_cons fun pending => calm frame' rest rfl (same.mpr pending)
  pending := by
    intro other rest' chain pending
    rw [List.cons.injEq] at chain
    obtain ⟨rfl, -⟩ := chain
    rw [signum]
    exact agrees.pending frame rest rfl (same.mp pending)

/-- What holds in every state of a run outside the gap. -/
structure Stable (m : Machine) : Prop where
  guarded : Guarded m
  parked : Parked Frame.Pending m
  agrees : LibAgrees m.lib m.chain

theorem stable_initial : Stable initialMachine where
  guarded := guarded_initial
  parked := parked_initial
  agrees := running_init.agrees fun _ member => absurd member List.not_mem_nil

/-- A signal is delivered outside pending calls. -/
theorem Guarded.not_pending (guarded : Guarded m) (delivered : m.handler = .switchThreads)
    (outside : OutsideGap m .signal) {frame : Frame} {rest : List Frame}
    (chain : m.chain = frame :: rest) : ¬ frame.Pending := by
  rintro ⟨direct, atEntry | atSet | atIgnored | atSaved⟩
  · exact (outside frame rest chain direct).1 atEntry
  · exact (outside frame rest chain direct).2 atSet
  · cases delivered.symm.trans (guarded.ignored frame rest chain (.inl atIgnored))
  · cases delivered.symm.trans (guarded.ignored frame rest chain (.inr (.inl atSaved)))

theorem Stable.next {event : MachineEvent} (stable : Stable m) (outside : OutsideGap m event)
    (step : m.next event = some n) : Stable n := by
  obtain ⟨guarded, parked, agrees⟩ := stable
  have guardedAfter := guarded.next outside step
  have parkedAfter : Parked Frame.Pending n := by
    refine parked.next (fun signum => ?_) (fun isSignal frame rest chain => ?_) step
    · simp [Frame.Pending, Point.Early]
    · subst isSignal
      rcases next_cases step with ⟨call, isCall, -⟩ | ⟨-, -, delivered, -⟩ | ⟨isTick, -⟩
      · cases isCall
      · exact guarded.not_pending delivered outside chain
      · cases isTick
  refine ⟨guardedAfter, parkedAfter, ?_⟩
  rcases next_cases step with ⟨call, rfl, own, called⟩ | ⟨rfl, -, delivered, rfl⟩ |
    ⟨rfl, frame, rest, chain, ticked⟩
  · have running : Running m.lib := by
      apply agrees.running
      intro frame rest chain
      cases own.symm.trans chain
    rcases call_cases called with ⟨lib, value, masked, run, rfl⟩ | ⟨lib, signum, run, rfl⟩
    · have runningAfter : Running lib := running.call outside run
      exact runningAfter.agrees fun frame member => by
        rw [show m.chain = [] from own] at member
        exact absurd member List.not_mem_nil
    · obtain ⟨direct, idle, live⟩ := running.call outside run
      refine ⟨fun calm => absurd ⟨direct, .inl rfl⟩ (calm _ _ rfl), ?_⟩
      intro frame rest chain _
      cases chain
      exact ⟨idle, live⟩
  · have running : Running m.lib :=
      agrees.running fun frame rest chain => guarded.not_pending delivered outside chain
    exact running.agrees_cons (fun pending => pending.1 rfl) m.chain
  · have below := parked.below chain
    rw [chain] at agrees
    cases ticked with
    | setIgnore point | ignore point | save point =>
        exact agrees.move rfl (by simp [Frame.Pending, Point.Early, point])
    | pick point switched =>
        rename_i lib
        have picked : Running lib := by
          by_cases direct : frame.signum = .sigvtalrm
          · have running : Running m.lib := agrees.of_cons fun pending => pending.1 direct
            rw [direct] at switched
            exact running.leave_timer.dispatch switched
          · have pending : frame.Pending := ⟨direct, .inr (.inr (.inr point))⟩
            exact (agrees.pending frame rest rfl pending).1.dispatch switched
        exact picked.agrees_cons (by simp [Frame.Pending, Point.Early]) rest
    | jump point found =>
        have running := agrees.of_cons (by simp [Frame.Pending, Point.Early, point])
        exact running.agrees (parked.contexts _ _ found)
    | leave point =>
        have running := agrees.of_cons (by simp [Frame.Pending, Point.Early, point])
        exact running.agrees below
    | setHandler point | install point | arm point | resetHandler point | reinstall point
      | rearm point =>
        have running := agrees.of_cons (by simp [Frame.Pending, Point.Early, point])
        exact running.agrees_cons (by simp [Frame.Pending, Point.Early]) rest

/-! ## The queue is safe -/

theorem Running.queueSafe (running : Running m.lib) : m.QueueSafe where
  pooled_not_ready := fun id unused member =>
    running.awake_live unused ((running.ready_iff id).mp member).2
  pooled_not_current := fun unused => absurd running.current (running.awake_live unused)
  ready_unblocked := by
    intro i member thread found
    exact (awake_iff_unblocked found).mp ((running.ready_iff i).mp member).2
  ready_nodup := running.ready_nodup

/-- In a pending call the queue is already that of the next dispatch. -/
theorem queueSafe_of_pending {frame : Frame} {rest : List Frame} (chain : m.chain = frame :: rest)
    (pending : frame.Pending) (idle : Idle (m.lib.leave frame.signum)) {thread : Thread}
    (current : m.lib.uthreads m.lib.currentThread = some thread) : m.QueueSafe := by
  have ready : (m.lib.leave frame.signum).ready = m.lib.ready := by
    cases direct : frame.signum with
    | sigvtalrm => exact absurd direct pending.1
    | terminateSwitch => rfl
    | blockSwitch => rfl
  constructor
  · intro id unused member
    rw [← leave_tids _ frame.signum] at unused
    rw [← ready] at member
    exact idle.awake_live unused ((idle.ready_iff id).mp member)
  · intro unused
    rw [← leave_tids _ frame.signum] at unused
    have dead := ((idle.pool _).mp unused).2.2
    refine ⟨frame, rest, chain, ?_, pending⟩
    cases direct : frame.signum with
    | sigvtalrm => exact absurd direct pending.1
    | terminateSwitch => rfl
    | blockSwitch =>
        rw [direct] at dead
        cases current.symm.trans dead
  · intro i member thread found
    rw [← ready] at member
    obtain ⟨awake, isAwake, unblocked⟩ := (idle.ready_iff i).mp member
    rw [(leave_find.mp isAwake).1, Option.some.injEq] at found
    exact found ▸ unblocked
  · rw [← ready]
    exact idle.ready_nodup

theorem LibAgrees.queueSafe (agrees : LibAgrees m.lib m.chain) : m.QueueSafe := by
  by_cases calm : ∀ frame rest, m.chain = frame :: rest → ¬ frame.Pending
  · exact (agrees.running calm).queueSafe
  · simp only [not_forall, not_not] at calm
    obtain ⟨frame, rest, chain, pending⟩ := calm
    obtain ⟨idle, thread, current⟩ := agrees.pending frame rest chain pending
    exact queueSafe_of_pending chain pending idle current

/-- **The queue is safe under preemption** in every run without a signal in the
gap of a direct switch and without the termination of a waiting thread. -/
theorem queue_safe (reachable : (machine.restrict OutsideGap).Reachable m) : m.QueueSafe := by
  have stable : Stable m := by
    refine reachable.invariant (P := Stable) ?_ ?_
    · rintro _ rfl
      exact stable_initial
    · rintro _ _ _ _ stable ⟨outside, step⟩
      exact stable.next outside step
  exact stable.agrees.queueSafe

/-- A new thread is dispatched and blocks itself, up to the statement that picks
the next thread. -/
def selfBlockEvents : List MachineEvent :=
  [.call .spawn, .signal] ++ List.replicate 8 .tick ++ [.call (.block 1), .tick, .tick, .tick]

theorem queue_safe_selfBlock : ∃ m, exec Machine.next initialMachine selfBlockEvents = some m ∧
    m.lib.currentThread = 1 ∧ m.lib.ready = [0] ∧ m.QueueSafe := by
  have result : (exec Machine.next initialMachine selfBlockEvents).map
      (fun m => (m.lib.currentThread, m.lib.ready)) = some (1, [0]) := by decide +kernel
  obtain ⟨m, run, facts⟩ := Option.map_eq_some_iff.mp result
  obtain ⟨current, ready⟩ := Prod.ext_iff.mp facts
  have outside : StepsMeet Machine.next OutsideGap initialMachine selfBlockEvents := by
    refine (stepsMeet_cons rfl).mpr ⟨trivial, (stepsMeet_cons rfl).mpr ⟨?_, ?_⟩⟩
    · intro frame rest chain
      cases chain
    · exact stepsMeet_of_forall (by simp [OutsideGap, SparesWaiting]) _
  exact ⟨m, run, current, ready, queue_safe (exec_restrict_reachable (.init rfl) outside run)⟩

/-- A new thread is dispatched and terminates itself. A signal is delivered
before it ignores signals. -/
def gapEvents : List MachineEvent :=
  [.call .spawn, .signal] ++ List.replicate 8 .tick ++ [.call (.terminate 1), .signal] ++
    List.replicate 4 .tick

/-- **A signal in the gap queues a terminated thread.** -/
theorem gap_signal_queues_terminated : ∃ m,
    exec Machine.next initialMachine gapEvents = some m ∧ m.lib.ready = [1] ∧
      1 ∈ m.lib.tids.unusedIds.keys ∧ ¬ m.QueueSafe := by
  have result : (exec Machine.next initialMachine gapEvents).map
      (fun m => (m.lib.ready, m.lib.tids.unusedIds.contains 1)) = some ([1], true) := by
    decide +kernel
  obtain ⟨m, run, facts⟩ := Option.map_eq_some_iff.mp result
  obtain ⟨ready, pooled⟩ := Prod.ext_iff.mp facts
  have unused : 1 ∈ m.lib.tids.unusedIds.keys := SortedMap.contains_iff.mp pooled
  refine ⟨m, run, ready, unused, fun safe => safe.pooled_not_ready 1 unused ?_⟩
  rw [show m.lib.ready = [1] from ready]
  exact List.mem_singleton_self 1

end Os2018.Uthreads
