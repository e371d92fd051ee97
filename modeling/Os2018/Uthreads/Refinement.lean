import Os2018.Library.JoinScheduler
import Os2018.Uthreads.Scheduler

/-!
# The library carries out round-robin scheduling with joins

The flags, the lists of dependents and the ready queue are one way to represent
who is held, who waits for whom and who is next. `State.schedule` reads a
scheduler's state off them. In runs that do not terminate a waiting thread, every
call and every timer switch has the effect that the request has on that state
(`refines_scheduler`): a call that is rejected has none, and the thread at the
front of the queue is dispatched when the running thread stops.

What holds of all such schedulers then holds of the library. Threads that wait for
each other in a cycle stay blocked for the rest of such a run
(`cycle_stays_blocked`).
-/

set_option autoImplicit false

namespace Os2018.Uthreads

open Transition

variable {s t : State} {tid : Int} {ending : Ending} {event : Event} {events : List Event}

/-! ## Reading off the schedule -/

def State.schedule (s : State) : JoinScheduler Int where
  live := {i | ∃ thread, s.uthreads i = some thread}
  running := s.currentThread
  queue := s.ready
  held := {i | ∃ thread, s.uthreads i = some thread ∧ thread.blockedDirectly = true}
  joins := fun i target => ∃ thread, s.uthreads target = some thread ∧
    i ∈ thread.syncDependencies

/-- The ids that `uthread_spawn` can give out, and the main thread's. -/
def threadIds : Set Int := {id | 0 ≤ id ∧ id < maxThreadNum}

/-- What an event asks of the scheduler. -/
def request : Event → JoinScheduler.Request Int
  | .call .spawn => .spawn
  | .call (.terminate tid) => .finish tid
  | .call (.block tid) => .hold tid
  | .call (.resume tid) => .release tid
  | .call (.sync tid) => .join tid
  | .timer => .tick

section SetThread

variable {before after : Thread}

theorem schedule_live_setThread (found : s.uthreads tid = some before) :
    (s.setThread tid (some after)).schedule.live = s.schedule.live := by
  ext i
  by_cases same : i = tid
  · subst same
    exact iff_of_true ⟨after, State.setThread_self ..⟩ ⟨before, found⟩
  · simp [State.schedule, same]

theorem schedule_joins_setThread (found : s.uthreads tid = some before)
    (lists : after.syncDependencies = before.syncDependencies) :
    (s.setThread tid (some after)).schedule.joins = s.schedule.joins := by
  funext i target
  by_cases same : target = tid
  · subst same
    simp [State.schedule, found, lists]
  · simp [State.schedule, same]

theorem mem_held_setThread {i : Int} : i ∈ (s.setThread tid (some after)).schedule.held ↔
    (i = tid ∧ after.blockedDirectly = true) ∨ (i ≠ tid ∧ i ∈ s.schedule.held) := by
  by_cases same : i = tid
  · subst same
    simp [State.schedule]
  · simp [State.schedule, same]

end SetThread

theorem mem_held_iff {thread : Thread} (found : s.uthreads tid = some thread) :
    tid ∈ s.schedule.held ↔ thread.blockedDirectly = true := by
  constructor
  · rintro ⟨thread', found', held⟩
    rw [found, Option.some.injEq] at found'
    exact found' ▸ held
  · exact fun held => ⟨thread, found, held⟩

/-! ## What becomes of the schedule -/

theorem schedule_dispatch (picked : s.dispatch = some t) :
    JoinScheduler.Dispatches s.schedule t.schedule := by
  obtain ⟨next, ready, thread, queue, found, rfl⟩ := dispatch_cases picked
  have same : State.schedule
      { s.setThread next (some { thread with quantums := thread.quantums + 1 }) with
        currentThread := next, ready, totalQuantums := s.totalQuantums + 1 } =
      { s.schedule with running := next, queue := ready } := by
    apply JoinScheduler.ext
    · exact schedule_live_setThread found
    · rfl
    · rfl
    · ext i
      refine (mem_held_setThread (s := s)).trans ?_
      by_cases isNext : i = next
      · subst isNext
        simp [State.schedule, found]
      · simp [isNext]
    · exact schedule_joins_setThread found rfl
  rw [same]
  exact .intro queue

theorem schedule_spawned {id : Int} (free : s.uthreads id = none) :
    (s.spawned id).schedule = s.schedule.add id := by
  apply JoinScheduler.ext
  · ext i
    simp only [State.schedule, JoinScheduler.add, Set.mem_ofPred_eq, Set.mem_insert_iff,
      spawned_find free]
    constructor
    · rintro ⟨thread, ⟨rfl, -⟩ | found⟩
      · exact .inl rfl
      · exact .inr ⟨thread, found⟩
    · rintro (rfl | ⟨thread, found⟩)
      · exact ⟨_, .inl ⟨rfl, rfl⟩⟩
      · exact ⟨thread, .inr found⟩
  · rfl
  · rfl
  · ext i
    simp only [State.schedule, JoinScheduler.add, Set.mem_ofPred_eq, spawned_find free]
    constructor
    · rintro ⟨thread, ⟨-, rfl⟩ | found, held⟩
      · cases held
      · exact ⟨thread, found, held⟩
    · rintro ⟨thread, found, held⟩
      exact ⟨thread, .inr found, held⟩
  · funext i target
    simp only [State.schedule, JoinScheduler.add, spawned_find free, eq_iff_iff]
    constructor
    · rintro ⟨thread, ⟨-, rfl⟩ | found, member⟩
      · exact absurd member List.not_mem_nil
      · exact ⟨thread, found, member⟩
    · rintro ⟨thread, found, member⟩
      exact ⟨thread, .inr found, member⟩

theorem schedule_blocked {thread : Thread} (found : s.uthreads tid = some thread) :
    ((s.setThread tid (some { thread with blockedDirectly := true })).removeReady tid).schedule =
      s.schedule.suspend tid := by
  apply JoinScheduler.ext
  · exact schedule_live_setThread found
  · rfl
  · rfl
  · ext i
    refine (mem_held_setThread (s := s)).trans ?_
    by_cases same : i = tid
    · simp [same, JoinScheduler.suspend]
    · simp [same, JoinScheduler.suspend]
  · exact schedule_joins_setThread found rfl

theorem schedule_resumed {thread : Thread} (found : s.uthreads tid = some thread) :
    (s.setThread tid (some { thread with blockedDirectly := false })).schedule =
      s.schedule.unhold tid := by
  apply JoinScheduler.ext
  · exact schedule_live_setThread found
  · rfl
  · rfl
  · ext i
    rw [mem_held_setThread]
    simp [JoinScheduler.unhold, and_comm]
  · exact schedule_joins_setThread found rfl

theorem schedule_syncedTo {target : Int} {targeted : Thread}
    (isTarget : s.uthreads target = some targeted) :
    (s.syncedTo s.currentThread target).schedule = s.schedule.await target := by
  apply JoinScheduler.ext
  · ext i
    simp [State.schedule, JoinScheduler.await, State.syncedTo]
  · rfl
  · rfl
  · ext i
    simp [State.schedule, JoinScheduler.await, State.syncedTo, Thread.tied]
  · funext i j
    simp only [State.schedule, JoinScheduler.await, syncedTo_find, eq_iff_iff]
    constructor
    · rintro ⟨_, ⟨thread, found, rfl⟩, member⟩
      rcases List.mem_append.mp member with old | new
      · exact .inl ⟨thread, found, old⟩
      · split_ifs at new with isTargetId
        · exact .inr ⟨List.mem_singleton.mp new, isTargetId⟩
        · exact absurd new List.not_mem_nil
    · rintro (⟨thread, found, member⟩ | ⟨rfl, rfl⟩)
      · exact ⟨_, ⟨thread, found, rfl⟩, List.mem_append_left _ member⟩
      · exact ⟨_, ⟨targeted, isTarget, rfl⟩, by simp [Thread.tied]⟩

/-- A thread that does not wait is in no list, so all lists stay. -/
theorem Running.schedule_terminated (running : Running s) {thread : Thread}
    (found : s.uthreads tid = some thread) (notWaiting : thread.syncBlocked = false) :
    (s.terminated tid thread).schedule =
      s.schedule.remove tid (s.awakened thread.syncDependencies) := by
  apply JoinScheduler.ext
  · ext i
    simp only [State.schedule, JoinScheduler.remove, Set.mem_ofPred_eq, terminated_find,
      Set.mem_sdiff, Set.mem_singleton_iff]
    constructor
    · rintro ⟨_, other, before, isBefore, -⟩
      exact ⟨⟨before, isBefore⟩, other⟩
    · rintro ⟨⟨before, isBefore⟩, other⟩
      exact ⟨_, other, before, isBefore, rfl⟩
  · rfl
  · rfl
  · ext i
    simp only [State.schedule, JoinScheduler.remove, Set.mem_ofPred_eq, terminated_find,
      Set.mem_sdiff, Set.mem_singleton_iff]
    constructor
    · rintro ⟨_, ⟨other, before, isBefore, rfl⟩, held⟩
      exact ⟨⟨before, isBefore, by split_ifs at held <;> exact held⟩, other⟩
    · rintro ⟨⟨before, isBefore, held⟩, other⟩
      exact ⟨_, ⟨other, before, isBefore, rfl⟩, by split_ifs <;> exact held⟩
  · funext i j
    simp only [State.schedule, JoinScheduler.remove, terminated_find, eq_iff_iff]
    constructor
    · rintro ⟨_, ⟨other, before, isBefore, rfl⟩, member⟩
      have listed : i ∈ before.syncDependencies := by split_ifs at member <;> exact member
      obtain ⟨-, dependent, isLive, waits⟩ := running.synced.waiting j before i isBefore listed
      refine ⟨⟨before, isBefore, listed⟩, ?_, other⟩
      rintro rfl
      rw [found, Option.some.injEq] at isLive
      rw [← isLive, notWaiting] at waits
      cases waits
    · rintro ⟨⟨before, isBefore, member⟩, -, other⟩
      exact ⟨_, ⟨other, before, isBefore, rfl⟩, by split_ifs <;> exact member⟩

theorem Running.wakes (running : Running s) {thread : Thread}
    (found : s.uthreads tid = some thread) :
    s.schedule.Wakes tid (s.awakened thread.syncDependencies) := by
  refine ⟨(running.synced.dependents_nodup found).filter _, fun i => ?_⟩
  have joins_iff : s.schedule.joins i tid ↔ i ∈ thread.syncDependencies := by
    simp [State.schedule, found]
  rw [joins_iff, State.awakened, List.mem_filter, decide_eq_true_eq]
  apply and_congr_right
  intro member
  obtain ⟨-, dependent, isLive, -⟩ := running.synced.waiting tid thread i found member
  rw [mem_held_iff isLive, isLive, Option.map_some, Option.some.injEq, Bool.not_eq_true]

/-! ## Steps -/

/-- The scheduler's step for the same event. -/
abbrev Carries (s : State) (event : Event) (t : State) : Prop :=
  JoinScheduler.Step threadIds mainThreadId s.schedule (request event) t.schedule

theorem Running.not_live_of_invalid (running : Running s) (invalid : s.tids.isValid tid = false) :
    tid ∉ s.schedule.live := by
  rintro ⟨thread, found⟩
  rw [running.isValid_of_live found] at invalid
  cases invalid

theorem Running.carries_spawn (running : Running s) (step : s.next (.call .spawn) = some t) :
    Carries s (.call .spawn) t := by
  have spawned : ∀ {u ending}, uthreadSpawn s = (u, ending) →
      (∃ value, ending = .returned value false) ∧ Carries s (.call .spawn) u := by
    intro u ending run
    rcases uthreadSpawn_cases running.positive run with
      ⟨full, rfl, rfl⟩ | ⟨id, unused, -, rfl, rfl⟩
    · refine ⟨⟨_, rfl⟩, .void ?_⟩
      rintro id ⟨positive, below⟩
      by_contra dead
      have free : u.uthreads id = none := by
        rw [Option.eq_none_iff_forall_ne_some]
        exact fun thread found => dead ⟨thread, found⟩
      have other : id ≠ mainThreadId := by
        rintro rfl
        obtain ⟨thread, found, -⟩ := running.main
        exact dead ⟨thread, found⟩
      have pooled := (running.pool id).mpr ⟨lt_of_le_of_ne positive other.symm, below, free⟩
      rw [full] at pooled
      exact absurd pooled List.not_mem_nil
    · obtain ⟨positive, below, free⟩ := (running.pool id).mp unused
      refine ⟨⟨_, rfl⟩, ?_⟩
      rw [Carries, schedule_spawned free]
      refine .spawn ⟨positive.le, below⟩ ?_
      rintro ⟨thread, found⟩
      cases free.symm.trans found
  rcases next_call_cases step with ⟨_, _, run⟩ | ⟨u, signum, run, -⟩
  · exact (spawned (Option.some.inj run)).2
  · obtain ⟨⟨_, impossible⟩, -⟩ := spawned (Option.some.inj run)
    cases impossible

theorem Running.carries_terminate (running : Running s)
    (spares : SparesWaiting s (.call (.terminate tid)))
    (step : s.next (.call (.terminate tid)) = some t) : Carries s (.call (.terminate tid)) t := by
  rcases next_call_cases step with ⟨_, _, run⟩ | ⟨u, signum, run, switched⟩
  · rcases uthreadTerminate_cases run with ⟨invalid, rfl, -⟩ | ⟨-, impossible⟩ |
      ⟨-, notMain, thread, found, -, ⟨-, -, impossible⟩ | ⟨other, rfl, -⟩⟩
    · exact .void (running.not_live_of_invalid invalid)
    · cases impossible
    · cases impossible
    · have removed := running.schedule_terminated found (spares thread found)
      rw [State.terminated] at removed
      rw [Carries, removed]
      exact .finish ⟨thread, found⟩ notMain (Ne.symm other) (running.wakes found)
  · rcases uthreadTerminate_cases run with ⟨-, -, impossible⟩ | ⟨-, impossible⟩ |
      ⟨-, notMain, thread, found, -, ⟨isCurrent, rfl, ending⟩ | ⟨-, -, impossible⟩⟩
    · cases impossible
    · cases impossible
    · cases ending
      have removed := running.schedule_terminated found (spares thread found)
      have left : (s.released tid thread).leave .terminateSwitch = s.terminated tid thread := by
        subst isCurrent
        rfl
      have dispatched := schedule_dispatch switched
      rw [left, removed] at dispatched
      exact .exit notMain isCurrent.symm (running.wakes found) dispatched
    · cases impossible

theorem Running.carries_block (running : Running s)
    (step : s.next (.call (.block tid)) = some t) : Carries s (.call (.block tid)) t := by
  rcases next_call_cases step with ⟨_, _, run⟩ | ⟨u, signum, run, switched⟩
  · rcases uthreadBlock_cases run with ⟨rfl, -, invalid | isMain | ⟨thread, found, held⟩⟩ |
      ⟨notMain, thread, found, ⟨-, -, impossible⟩ | ⟨other, free, rfl, -⟩⟩
    · exact .void (.inl (running.not_live_of_invalid invalid))
    · exact .void (.inr (.inl isMain))
    · exact .void (.inr (.inr ⟨thread, found, held⟩))
    · cases impossible
    · rw [Carries, schedule_blocked found]
      refine .hold ⟨thread, found⟩ notMain ?_ (Ne.symm other)
      rw [mem_held_iff found, free]
      exact Bool.false_ne_true
  · rcases uthreadBlock_cases run with ⟨-, ⟨_, _, impossible⟩, -⟩ |
      ⟨notMain, thread, found, ⟨isCurrent, rfl, ending⟩ | ⟨-, -, -, impossible⟩⟩
    · cases impossible
    · cases ending
      have suspended := schedule_blocked found
      have dispatched := schedule_dispatch switched
      subst isCurrent
      rw [running.removeReady_current] at suspended
      rw [State.leave, suspended] at dispatched
      exact .pause notMain rfl dispatched
    · cases impossible

/-- A resumed thread that was blocked is no longer the same. -/
theorem Running.resume_unchanged (running : Running s) {thread : Thread}
    (found : s.uthreads tid = some thread) (run : uthreadResume s tid = some (s, ending)) :
    thread.blockedDirectly = false := by
  rw [← Bool.not_eq_true]
  intro held
  have notMain : tid ≠ mainThreadId := by
    rintro rfl
    have free := ((awake_iff_unblocked found).mp running.main).1
    exact Bool.false_ne_true (free.symm.trans held)
  have other : tid ≠ s.currentThread := by
    rintro rfl
    have free := ((awake_iff_unblocked found).mp running.current).1
    exact Bool.false_ne_true (free.symm.trans held)
  have valid := running.isValid_of_live found
  rw [uthreadResume, valid, if_neg (by decide), if_neg (by simp [notMain, other])] at run
  simp only [found, State.modify, Option.bind_eq_bind, Option.bind_some, held, if_true,
    Option.map_some, Option.pure_def, Option.some.injEq, Prod.mk.injEq] at run
  have flag := congrArg (fun u => (u.uthreads tid).map Thread.blockedDirectly) run.1
  split_ifs at flag
  · simp [State.pushReady, found, held] at flag
  · simp [found, held] at flag

theorem Running.carries_resume (running : Running s)
    (step : s.next (.call (.resume tid)) = some t) : Carries s (.call (.resume tid)) t := by
  have returns : ∃ ending, uthreadResume s tid = some (t, ending) := by
    rcases next_call_cases step with ⟨_, _, run⟩ | ⟨u, signum, run, -⟩
    · exact ⟨_, run⟩
    · obtain ⟨⟨_, _, impossible⟩, -⟩ := uthreadResume_cases run
      cases impossible
  obtain ⟨ending, run⟩ := returns
  obtain ⟨-, rfl | ⟨-, thread, found, held, ⟨waits, rfl⟩ | ⟨free, rfl⟩⟩⟩ := uthreadResume_cases run
  · refine .void ?_
    rintro ⟨thread, found, held⟩
    rw [running.resume_unchanged found run] at held
    cases held
  · obtain ⟨u, lister, isLister, once, -⟩ := running.synced.listed tid thread found waits
    rw [Carries, schedule_resumed found]
    exact .releaseWaiting ⟨thread, found, held⟩
      ⟨lister, isLister, List.count_pos_iff.mp (by omega)⟩
  · have released := schedule_resumed found
    have queued : ((s.setThread tid
        (some { thread with blockedDirectly := false })).pushReady tid).schedule =
        (s.schedule.unhold tid).enqueue tid := by
      rw [← released]
      rfl
    rw [Carries, queued]
    refine .release ⟨thread, found, held⟩ ?_
    rintro target ⟨lister, isLister, member⟩
    obtain ⟨-, dependent, isLive, waits⟩ := running.synced.waiting target lister tid isLister member
    rw [found, Option.some.injEq] at isLive
    rw [← isLive, free] at waits
    cases waits

/-- A call of `uthread_sync` that is rejected concerns an id without a thread,
the caller itself, or the main thread. -/
theorem Running.sync_rejected (running : Running s) (run : uthreadSync s tid = some (s, ending))
    (returned : ending = .returned (-1) false) :
    s.schedule.Void threadIds mainThreadId (.join tid) := by
  subst returned
  rw [uthreadSync] at run
  split_ifs at run with rejected
  · simp only [Bool.or_eq_true, Bool.not_eq_true', decide_eq_true_eq] at rejected
    rcases rejected with (invalid | isMain) | isCurrent
    · exact .inl (running.not_live_of_invalid invalid)
    · exact .inr (.inr isMain)
    · exact .inr (.inl isCurrent)
  · obtain ⟨s', -, run⟩ := Option.bind_eq_some_iff.mp run
    obtain ⟨s'', -, run⟩ := Option.bind_eq_some_iff.mp run
    cases run

theorem Running.carries_sync (running : Running s)
    (step : s.next (.call (.sync tid)) = some t) : Carries s (.call (.sync tid)) t := by
  rcases next_call_cases step with ⟨_, _, run⟩ | ⟨u, signum, run, switched⟩
  · rcases uthreadSync_cases run with ⟨rfl, ending⟩ | ⟨-, -, _, _, -, -, -, impossible⟩
    · exact .void (running.sync_rejected run ending)
    · cases impossible
  · rcases uthreadSync_cases run with ⟨-, impossible⟩ |
      ⟨notMain, other, thread, target, found, isTarget, rfl, ending⟩
    · cases impossible
    · cases ending
      have dispatched := schedule_dispatch switched
      rw [State.leave, syncedTo_eq other found isTarget, schedule_syncedTo isTarget] at dispatched
      exact .join ⟨target, isTarget⟩ other notMain dispatched

/-- **One step of the library is one step of the scheduler.** -/
theorem Running.carries (running : Running s) (spares : SparesWaiting s event)
    (step : s.next event = some t) : Carries s event t := by
  cases event with
  | timer => exact .tick (schedule_dispatch step)
  | call call =>
      cases call with
      | spawn => exact running.carries_spawn step
      | terminate tid => exact running.carries_terminate spares step
      | block tid => exact running.carries_block step
      | resume tid => exact running.carries_resume step
      | sync tid => exact running.carries_sync step

/-! ## Runs -/

theorem schedule_init : uthreadInit.schedule = JoinScheduler.start mainThreadId := by
  have found_iff : ∀ i thread, uthreadInit.uthreads i = some thread ↔
      i = mainThreadId ∧ thread = { Thread.new 0 with quantums := 1 } := by
    intro i thread
    by_cases same : i = mainThreadId
    · simp [uthreadInit, same, eq_comm]
    · simp [uthreadInit, same]
  apply JoinScheduler.ext
  · ext i
    simp [State.schedule, JoinScheduler.start, found_iff]
  · rfl
  · rfl
  · ext i
    simp [State.schedule, JoinScheduler.start, found_iff, Thread.new]
  · funext i target
    simp [State.schedule, JoinScheduler.start, found_iff, Thread.new]

theorem Running.path (running : Running s) (run : exec State.next s events = some t)
    (spares : StepsMeet State.next SparesWaiting s events) :
    (JoinScheduler.system threadIds mainThreadId).Path s.schedule (events.map request)
      t.schedule :=
  exec_simulates (P := Running) State.schedule request
    (fun _ _ _ running spared step => ⟨running.next spared step, running.carries spared step⟩)
    run spares running

/-- **Refinement.** In a run that does not terminate waiting threads, the threads
are held, wait for each other, queue and run as in round-robin scheduling with
joins under the same requests. -/
theorem refines_scheduler (run : exec State.next uthreadInit events = some t)
    (spares : StepsMeet State.next SparesWaiting uthreadInit events) :
    (JoinScheduler.system threadIds mainThreadId).Path (JoinScheduler.start mainThreadId)
      (events.map request) t.schedule := by
  rw [← schedule_init]
  exact running_init.path run spares

/-- Thread 1 joins thread 2 and is held and released meanwhile. -/
theorem refines_scheduler_joined : ∃ t,
    exec State.next uthreadInit [.call .spawn, .call .spawn, .timer, .call (.sync 2),
      .call (.block 1), .call (.resume 1)] = some t ∧
      (JoinScheduler.system threadIds mainThreadId).Path (JoinScheduler.start mainThreadId)
        [.spawn, .spawn, .tick, .join 2, .hold 1, .release 1] t.schedule := by
  obtain ⟨t, run⟩ : ∃ t, exec State.next uthreadInit [.call .spawn, .call .spawn, .timer,
      .call (.sync 2), .call (.block 1), .call (.resume 1)] = some t :=
    Option.isSome_iff_exists.mp (by decide +kernel)
  exact ⟨t, run, refines_scheduler run (stepsMeet_of_forall (by simp [SparesWaiting]) _)⟩

/-! ## Deadlock -/

theorem Running.cycle_next (running : Running s) {circle : Set Int}
    (waits : s.schedule.Cycle circle) (spares : SparesWaiting s event)
    (step : s.next event = some t) : t.schedule.Cycle circle := by
  refine JoinScheduler.Cycle.step waits (running.carries spares step) ?_
  intro i member finishes
  -- A member waits, so this would terminate a waiting thread.
  obtain ⟨target, -, lister, isLister, listed⟩ := waits i member
  obtain ⟨-, dependent, isLive, blocked⟩ :=
    running.synced.waiting target lister i isLister listed
  have terminates : event = .call (.terminate i) := by
    cases event with
    | timer => cases finishes
    | call call =>
        cases call with
        | terminate other =>
            cases finishes
            rfl
        | spawn => cases finishes
        | block other => cases finishes
        | resume other => cases finishes
        | sync other => cases finishes
  subst terminates
  rw [spares dependent isLive] at blocked
  cases blocked

/-- **Deadlock.** Threads that wait for each other in a cycle neither run nor are
ready at any later point of a run that does not terminate waiting threads. -/
theorem cycle_stays_blocked {before after : List Event} {circle : Set Int}
    (earlier : exec State.next uthreadInit before = some s)
    (waits : ∀ i ∈ circle, ∃ target ∈ circle, ∃ thread, s.uthreads target = some thread ∧
      i ∈ thread.syncDependencies)
    (later : exec State.next s after = some t)
    (spares : StepsMeet State.next SparesWaiting uthreadInit (before ++ after)) :
    ∀ i ∈ circle, i ∉ t.ready ∧ t.currentThread ≠ i := by
  obtain ⟨sparesBefore, sparesAfter⟩ := (stepsMeet_append earlier).mp spares
  have running : Running s := exec_invariant
    (fun _ _ _ running spared step => Running.next running spared step) earlier sparesBefore
    running_init
  have last : Running t ∧ t.schedule.Cycle circle :=
    exec_invariant (P := fun s => Running s ∧ s.schedule.Cycle circle)
      (fun _ _ _ before spared step =>
        ⟨before.1.next spared step, before.1.cycle_next before.2 spared step⟩)
      later sparesAfter ⟨running, waits⟩
  have path : exec State.next uthreadInit (before ++ after) = some t :=
    (exec_append earlier).trans later
  have consistent := JoinScheduler.consistent_of_path (refines_scheduler path spares)
  exact fun i member => JoinScheduler.Cycle.stopped last.2 consistent member

/-- Threads 1 and 2 wait for each other, and being resumed does not help. -/
theorem cycle_stays_blocked_pair : ∃ s t,
    exec State.next uthreadInit
      [.call .spawn, .call .spawn, .timer, .call (.sync 2), .call (.sync 1)] = some s ∧
      exec State.next s [.call (.block 1), .timer, .call (.resume 1), .timer] = some t ∧
      1 ∉ t.ready ∧ t.currentThread ≠ 1 := by
  have result : (exec State.next uthreadInit
      [.call .spawn, .call .spawn, .timer, .call (.sync 2), .call (.sync 1)]).map
      (fun s => (s.uthreads 1, s.uthreads 2, (exec State.next s
        [.call (.block 1), .timer, .call (.resume 1), .timer]).isSome)) =
      some (some ⟨false, true, 1, [2], 1⟩, some ⟨false, true, 1, [1], 2⟩, true) := by
    decide +kernel
  obtain ⟨s, earlier, facts⟩ := Option.map_eq_some_iff.mp result
  simp only [Prod.mk.injEq] at facts
  obtain ⟨first, second, facts⟩ := facts
  obtain ⟨t, later⟩ := Option.isSome_iff_exists.mp facts
  have spares : StepsMeet State.next SparesWaiting uthreadInit
      ([.call .spawn, .call .spawn, .timer, .call (.sync 2), .call (.sync 1)] ++
        [.call (.block 1), .timer, .call (.resume 1), .timer]) :=
    stepsMeet_of_forall (by simp [SparesWaiting]) _
  have waits : ∀ i ∈ ({1, 2} : Set Int), ∃ target ∈ ({1, 2} : Set Int), ∃ thread,
      s.uthreads target = some thread ∧ i ∈ thread.syncDependencies := by
    rintro i (rfl | rfl)
    · exact ⟨2, .inr rfl, _, second, List.mem_singleton_self 1⟩
    · exact ⟨1, .inl rfl, _, first, List.mem_singleton_self 2⟩
  exact ⟨s, t, earlier, later, cycle_stays_blocked earlier waits later spares 1 (.inl rfl)⟩

end Os2018.Uthreads
