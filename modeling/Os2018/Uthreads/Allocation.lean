import Os2018.Uthreads.Ids

/-!
# Live threads in the queue, and free ids in the pool

A thread that is terminated while it waits for another leaves its id behind in a
list of dependents, and that id may name a later thread. The queue may then name
a thread twice, and the flags may be wrong. Two things are right in every run all
the same. `switch_threads` finds a live thread at the front of the queue, since
the main thread cannot block and every queued id names a live thread
(`switch_finds_thread`). And the pool holds exactly the ids without a thread, so
`uthread_spawn` gives out the least of them (`pool_is_free`).
-/

set_option autoImplicit false

namespace Os2018.Uthreads

open Transition

variable {s t : State} {tid : Int} {ending : Ending}

/-! ## Statements -/

/-- There is a thread with the id. -/
def State.Live (s : State) (tid : Int) : Prop := ∃ thread, s.uthreads tid = some thread

/-- What `switch_threads` needs when it takes the front of the queue. -/
structure FrontIsLive (s : State) : Prop where
  front : ∃ next rest, s.ready = next :: rest ∧ s.Live next
  main_ready : mainThreadId ∈ s.ready
  ready_live : ∀ i ∈ s.ready, s.Live i

/-- The event is no call of `uthread_spawn` that gives the id out. -/
def DoesNotSpawn (tid : Int) (s : State) (event : Event) : Prop :=
  event = .call .spawn → (uthreadSpawn s).2 ≠ .returned tid false

/-- All ids but the main thread's name threads. -/
def State.AllHeld (s : State) : Prop := ∀ id, 0 < id → id < maxThreadNum → s.Live id

/-- The least positive id that names no thread. -/
structure LeastFree (s : State) (id : Int) : Prop where
  positive : 0 < id
  below : id < maxThreadNum
  free : s.uthreads id = none
  least : ∀ other, 0 < other → other < id → s.Live other

/-- What `uthread_spawn` does about the id. -/
structure Allocates (s : State) : Prop where
  fails : (uthreadSpawn s).2 = .returned (-1) false ↔ s.AllHeld
  unchanged : s.AllHeld → (uthreadSpawn s).1 = s
  gives : ¬ s.AllHeld → ∃ id, (uthreadSpawn s).2 = .returned id false ∧ LeastFree s id ∧
    (uthreadSpawn s).1.Live id

/-! ## The invariant -/

/-- The pool holds ids without a thread, the queue ids with one, and no thread is
its own dependent. -/
structure Staffed (s : State) : Prop where
  fit : IdsFit s
  pool_free : ∀ id ∈ s.tids.unusedIds.keys, s.uthreads id = none
  ready_live : ∀ i ∈ s.ready, s.Live i
  not_own : ∀ u thread, s.uthreads u = some thread → u ∉ thread.syncDependencies

/-- Between calls a live thread runs, and the main thread runs or is ready. -/
structure Manned (s : State) : Prop extends Staffed s where
  current : s.Live s.currentThread
  main : s.currentThread = mainThreadId ∨ mainThreadId ∈ s.ready

/-- When a thread has been left, the main thread is ready. -/
structure Queued (s : State) : Prop extends Staffed s where
  main_ready : mainThreadId ∈ s.ready

theorem Queued.frontIsLive (queued : Queued s) : FrontIsLive s where
  front := by
    have main := queued.main_ready
    cases queue : s.ready with
    | nil =>
        rw [queue] at main
        exact absurd main List.not_mem_nil
    | cons next rest =>
        exact ⟨next, rest, rfl, queued.ready_live next (queue ▸ List.mem_cons_self)⟩
  main_ready := queued.main_ready
  ready_live := queued.ready_live

theorem Staffed.mem_pool_iff (staffed : Staffed s) (id : Int) :
    id ∈ s.tids.unusedIds.keys ↔ 0 < id ∧ id < maxThreadNum ∧ s.uthreads id = none := by
  constructor
  · intro unused
    obtain ⟨positive, below⟩ := staffed.fit.pool id unused
    exact ⟨positive, below, staffed.pool_free id unused⟩
  · rintro ⟨positive, below, free⟩
    exact staffed.fit.inside id positive.le below free

theorem Staffed.not_ready (staffed : Staffed s) (free : s.uthreads tid = none) : tid ∉ s.ready := by
  intro member
  obtain ⟨thread, found⟩ := staffed.ready_live tid member
  cases free.symm.trans found

theorem Staffed.isValid_of_live (staffed : Staffed s) (live : s.Live tid) :
    s.tids.isValid tid = true := by
  obtain ⟨thread, found⟩ := live
  rw [← Bool.not_eq_false, isValid_eq_false]
  rintro ⟨-, -, unused⟩
  cases (staffed.pool_free tid unused).symm.trans found

/-- Another queue of live threads. -/
theorem Staffed.with_ready (staffed : Staffed s) {ready : List Int}
    (live : ∀ i ∈ ready, s.Live i) : Staffed { s with ready } where
  fit := staffed.fit.of_same rfl fun _ => Iff.rfl
  pool_free := staffed.pool_free
  ready_live := live
  not_own := staffed.not_own

/-! ## Steps of the library -/

theorem live_setThread {thread : Thread} {i : Int} (live : s.Live i) :
    (s.setThread tid (some thread)).Live i := by
  obtain ⟨before, found⟩ := live
  by_cases same : i = tid
  · exact ⟨thread, same ▸ State.setThread_self ..⟩
  · exact ⟨before, (State.setThread_of_ne _ _ _ same).trans found⟩

/-- A live thread changes, but does not become its own dependent. -/
theorem Staffed.setThread (staffed : Staffed s) {thread thread' : Thread}
    (found : s.uthreads tid = some thread) (notOwn : tid ∉ thread'.syncDependencies) :
    Staffed (s.setThread tid (some thread')) where
  fit := staffed.fit.of_same rfl (setThread_eq_none found)
  pool_free := fun id unused => (setThread_eq_none found id).mpr (staffed.pool_free id unused)
  ready_live := fun i member => live_setThread (staffed.ready_live i member)
  not_own := by
    intro u other isOther
    by_cases same : u = tid
    · subst same
      rw [State.setThread_self, Option.some.injEq] at isOther
      exact isOther ▸ notOwn
    · rw [State.setThread_of_ne _ _ _ same] at isOther
      exact staffed.not_own u other isOther

/-- A live thread changes its flags only. -/
theorem Manned.setThread (manned : Manned s) {thread thread' : Thread}
    (found : s.uthreads tid = some thread)
    (same : thread'.syncDependencies = thread.syncDependencies) :
    Manned (s.setThread tid (some thread')) where
  toStaffed := manned.toStaffed.setThread found (same ▸ manned.not_own tid thread found)
  current := live_setThread manned.current
  main := manned.main

theorem Manned.pushReady (manned : Manned s) (live : s.Live tid) : Manned (s.pushReady tid) where
  toStaffed := by
    refine manned.toStaffed.with_ready fun i member => ?_
    rcases List.mem_append.mp member with old | new
    · exact manned.ready_live i old
    · exact List.mem_singleton.mp new ▸ live
  current := manned.current
  main := manned.main.imp_right (List.mem_append_left _)

theorem Manned.removeReady (manned : Manned s) (notMain : tid ≠ mainThreadId) :
    Manned (s.removeReady tid) where
  toStaffed := manned.toStaffed.with_ready fun i member =>
    manned.ready_live i (List.mem_of_mem_filter member)
  current := manned.current
  main := manned.main.imp_right fun member =>
    List.mem_filter.mpr ⟨member, decide_eq_true notMain.symm⟩

/-- A thread other than the main one blocks. -/
theorem Manned.queued (manned : Manned s) (notMain : s.currentThread ≠ mainThreadId) :
    Queued s where
  toStaffed := manned.toStaffed
  main_ready := manned.main.resolve_left notMain

theorem Manned.leave_timer (manned : Manned s) : Queued (s.leave .sigvtalrm) where
  toStaffed := (manned.pushReady manned.current).toStaffed
  main_ready := by
    rcases manned.main with isCurrent | isReady
    · exact List.mem_append_right _ (List.mem_singleton.mpr isCurrent.symm)
    · exact List.mem_append_left _ isReady

/-- The thread at the front is dispatched. -/
theorem Queued.dispatch (queued : Queued s) (picked : s.dispatch = some t) : Manned t := by
  obtain ⟨next, ready, thread, queue, found, rfl⟩ := dispatch_cases picked
  have changed :
      Staffed (s.setThread next (some { thread with quantums := thread.quantums + 1 })) :=
    queued.toStaffed.setThread found (queued.not_own next thread found)
  have main := queued.main_ready
  rw [queue] at main
  refine ⟨⟨changed.fit.of_same rfl fun _ => Iff.rfl, changed.pool_free, fun i member => ?_,
    changed.not_own⟩, ⟨_, State.setThread_self ..⟩, ?_⟩
  · exact changed.ready_live i (queue ▸ List.mem_cons_of_mem _ member)
  · exact (List.mem_cons.mp main).imp_left Eq.symm

/-! ## Spawning and terminating -/

theorem Manned.spawned (manned : Manned s) {id : Int} (unused : id ∈ s.tids.unusedIds.keys) :
    Manned (s.spawned id) := by
  have dead := manned.pool_free id unused
  have live : ∀ i, s.Live i → (s.spawned id).Live i := fun i ⟨thread, found⟩ =>
    ⟨thread, (spawned_find dead).mpr (.inr found)⟩
  refine ⟨⟨manned.fit.spawned unused, fun i pooled => ?_, fun i member => ?_,
    fun u thread found => ?_⟩, live _ manned.current, ?_⟩
  · obtain ⟨different, old⟩ := SortedMap.mem_keys_erase.mp pooled
    exact (s.spawned_of_ne different).trans (manned.pool_free i old)
  · rcases List.mem_append.mp member with old | new
    · exact live i (manned.ready_live i old)
    · rw [List.mem_singleton.mp new]
      exact ⟨_, s.spawned_self id⟩
  · rcases (spawned_find dead).mp found with ⟨-, rfl⟩ | found
    · exact List.not_mem_nil
    · exact manned.not_own u thread found
  · exact manned.main.imp_right (List.mem_append_left _)

/-- The dependents that were woken are live, and the thread itself is gone from
the queue. -/
theorem Manned.terminated (manned : Manned s) {thread : Thread} (notMain : tid ≠ mainThreadId)
    (found : s.uthreads tid = some thread)
    (dependents : ∀ i ∈ thread.syncDependencies, s.Live i) :
    Staffed (s.terminated tid thread) ∧
      (mainThreadId ∈ s.ready → mainThreadId ∈ (s.terminated tid thread).ready) := by
  have pooled : tid ∈ (s.released tid thread).tids.unusedIds.keys :=
    (mem_pool_released thread).mpr (.inl rfl)
  have live : ∀ i, i ≠ tid → s.Live i → (s.terminated tid thread).Live i :=
    fun i different ⟨before, isBefore⟩ =>
      ⟨_, terminated_find.mpr ⟨different, before, isBefore, rfl⟩⟩
  refine ⟨⟨(manned.fit.released notMain found).deleteThread pooled, fun i unused => ?_,
    fun i member => ?_, fun u after isAfter => ?_⟩, fun isReady => ?_⟩
  · rw [Option.eq_none_iff_forall_ne_some]
    intro after isAfter
    obtain ⟨different, before, isBefore, -⟩ := terminated_find.mp isAfter
    have old := ((mem_pool_released thread).mp unused).resolve_left different
    cases (manned.pool_free i old).symm.trans isBefore
  · rcases List.mem_append.mp member with old | woken
    · obtain ⟨isReady, different⟩ := List.mem_filter.mp old
      exact live i (of_decide_eq_true different) (manned.ready_live i isReady)
    · have dependent := List.mem_of_mem_filter woken
      refine live i ?_ (dependents i dependent)
      rintro rfl
      exact manned.not_own i thread found dependent
  · obtain ⟨-, before, isBefore, rfl⟩ := terminated_find.mp isAfter
    split_ifs <;> exact manned.not_own u before isBefore
  · exact List.mem_append_left _ (List.mem_filter.mpr ⟨isReady, decide_eq_true notMain.symm⟩)

/-! ## Calls -/

/-- What holds after a call, by how it ends. -/
def AfterCall (t : State) : Ending → Prop
  | .returned _ _ => Manned t
  | .switching signum => Queued (t.leave signum)
  | .exited _ => True

theorem Manned.synced (manned : Manned s) {thread target : Thread}
    (notMain : s.currentThread ≠ mainThreadId) (other : tid ≠ s.currentThread)
    (found : s.uthreads s.currentThread = some thread) (isTarget : s.uthreads tid = some target) :
    Queued ((s.setThread s.currentThread (some { thread with syncBlocked := true })).setThread tid
      (some { target with
        syncDependencies := target.syncDependencies ++ [s.currentThread] })) := by
  have waits : Manned (s.setThread s.currentThread (some { thread with syncBlocked := true })) :=
    manned.setThread found rfl
  have isTarget' : (s.setThread s.currentThread
      (some { thread with syncBlocked := true })).uthreads tid = some target :=
    (State.setThread_of_ne _ _ _ other).trans isTarget
  refine ⟨waits.toStaffed.setThread isTarget' ?_, manned.main.resolve_left notMain⟩
  intro member
  rcases List.mem_append.mp member with old | new
  · exact manned.not_own tid target isTarget old
  · exact other (List.mem_singleton.mp new)

theorem Manned.call (manned : Manned s) {call : Call} (run : call.run s = some (t, ending)) :
    AfterCall t ending := by
  cases call with
  | spawn =>
      rcases uthreadSpawn_cases manned.fit.positive (Option.some.inj run) with
        ⟨-, rfl, rfl⟩ | ⟨id, unused, -, rfl, rfl⟩
      · exact manned
      · exact manned.spawned unused
  | terminate tid =>
      rcases uthreadTerminate_cases run with ⟨-, rfl, rfl⟩ | ⟨-, rfl⟩ |
        ⟨-, notMain, thread, found, dependents, ⟨rfl, rfl, rfl⟩ | ⟨other, rfl, rfl⟩⟩
      · exact manned
      · trivial
      · obtain ⟨staffed, main⟩ := manned.terminated notMain found dependents
        exact ⟨staffed, main (manned.main.resolve_left notMain)⟩
      · obtain ⟨staffed, main⟩ := manned.terminated notMain found dependents
        obtain ⟨current, isCurrent⟩ := manned.current
        exact ⟨staffed, ⟨_, terminated_find.mpr ⟨other, current, isCurrent, rfl⟩⟩,
          manned.main.imp_right main⟩
  | block tid =>
      rcases uthreadBlock_cases run with ⟨rfl, ⟨_, _, rfl⟩, -⟩ |
        ⟨notMain, thread, found, ⟨rfl, rfl, rfl⟩ | ⟨-, -, rfl, rfl⟩⟩
      · exact manned
      · have blocked : Manned (s.setThread s.currentThread
            (some { thread with blockedDirectly := true })) := manned.setThread found rfl
        exact blocked.queued notMain
      · have blocked : Manned (s.setThread tid
            (some { thread with blockedDirectly := true })) := manned.setThread found rfl
        exact blocked.removeReady notMain
  | resume tid =>
      obtain ⟨⟨_, _, rfl⟩, rfl | ⟨-, thread, found, -, ⟨-, rfl⟩ | ⟨-, rfl⟩⟩⟩ :=
        uthreadResume_cases run
      · exact manned
      · exact manned.setThread found rfl
      · have resumed : Manned (s.setThread tid
            (some { thread with blockedDirectly := false })) := manned.setThread found rfl
        exact resumed.pushReady ⟨_, State.setThread_self ..⟩
  | sync tid =>
      rcases uthreadSync_cases run with ⟨rfl, rfl⟩ |
        ⟨notMain, other, thread, target, found, isTarget, rfl, rfl⟩
      · exact manned
      · exact manned.synced notMain other found isTarget

theorem Manned.next {event : Event} (manned : Manned s) (step : s.next event = some t) :
    Manned t := by
  cases event with
  | timer => exact manned.leave_timer.dispatch step
  | call call =>
      rcases next_call_cases step with ⟨value, masked, run⟩ | ⟨u, signum, run, switched⟩
      · exact manned.call run
      · exact Queued.dispatch (manned.call run) switched

theorem manned_init : Manned uthreadInit where
  fit := idsFit_init
  pool_free := by
    intro id unused
    have positive := (idsFit_init.pool id unused).1
    have notMain : id ≠ mainThreadId := positive.ne'
    simp [uthreadInit, notMain]
  ready_live := fun _ member => absurd member List.not_mem_nil
  not_own := by
    intro u thread found
    by_cases same : u = mainThreadId
    · simp only [uthreadInit, same, Function.update_self, Option.some.injEq] at found
      exact found ▸ List.not_mem_nil
    · simp [uthreadInit, same] at found
  current := ⟨{ Thread.new 0 with quantums := 1 }, rfl⟩
  main := .inl rfl

theorem manned_of_reachable (reachable : library.Reachable s) : Manned s := by
  refine reachable.invariant (P := Manned) ?_ ?_
  · rintro _ rfl
    exact manned_init
  · exact fun _ _ _ _ manned step => manned.next step

/-! ## The queue -/

theorem switchThreads_tids {signum : Signum} (switched : switchThreads s signum = some t) :
    t.tids = s.tids := by
  obtain ⟨next, ready, thread, -, -, rfl⟩ := dispatch_cases switched
  exact leave_tids s signum

/-- The pool after a call is the one that the function of the interface leaves. -/
theorem next_call_tids {call : Call} (step : s.next (.call call) = some t) :
    ∃ u ending, call.run s = some (u, ending) ∧ (∀ code, ending ≠ .exited code) ∧
      t.tids = u.tids := by
  rcases next_call_cases step with ⟨value, masked, run⟩ | ⟨u, signum, run, switched⟩
  · exact ⟨t, _, run, nofun, rfl⟩
  · exact ⟨u, _, run, nofun, switchThreads_tids switched⟩

/-- An id stays without a thread in a step that does not give it out. -/
theorem Manned.free_next {event : Event} (manned : Manned s) (free : s.uthreads tid = none)
    (notSpawned : DoesNotSpawn tid s event) (step : s.next event = some t) :
    t.uthreads tid = none := by
  have after := manned.next step
  by_cases inRange : 0 ≤ tid ∧ tid < maxThreadNum
  · have unused := manned.fit.inside tid inRange.1 inRange.2 free
    refine after.pool_free tid ?_
    cases event with
    | timer =>
        rw [switchThreads_tids step]
        exact unused
    | call call =>
        obtain ⟨u, ending, run, stays, tids⟩ := next_call_tids step
        rw [tids]
        rcases (manned.fit.call run stays).pool tid unused with kept | ⟨rfl, ending⟩
        · exact kept
        · have result : uthreadSpawn s = (u, _) := Option.some.inj run
          exact absurd ((congrArg Prod.snd result).trans ending) (notSpawned rfl)
  · exact after.fit.outside tid inRange

/-- **The front of the queue.** Whenever `switch_threads` takes the next thread,
the queue is not empty and names live threads. The main thread runs or is ready,
and the id of a thread that ended is not in the queue until it is given out
again. -/
theorem switch_finds_thread (reachable : library.Reachable s) :
    FrontIsLive (s.leave .sigvtalrm) ∧
      (∀ (call : Call) t signum, call.run s = some (t, .switching signum) →
        FrontIsLive (t.leave signum)) ∧
      (s.currentThread = mainThreadId ∨ mainThreadId ∈ s.ready) ∧
      ∀ id, s.uthreads id = none → ∀ events t, exec State.next s events = some t →
        StepsMeet State.next (DoesNotSpawn id) s events → id ∉ t.ready := by
  have manned := manned_of_reachable reachable
  refine ⟨manned.leave_timer.frontIsLive, ?_, manned.main, ?_⟩
  · intro call t signum run
    have queued : Queued (t.leave signum) := manned.call run
    exact queued.frontIsLive
  · intro id free events t run notSpawned
    have after : Manned t ∧ t.uthreads id = none :=
      exec_invariant (P := fun s => Manned s ∧ s.uthreads id = none)
        (fun s event t before notSpawned step =>
          ⟨before.1.next step, before.1.free_next before.2 notSpawned step⟩)
        run notSpawned ⟨manned, free⟩
    exact after.1.not_ready after.2

/-- A terminated thread leaves its id in a list of dependents, and not in the
queue. -/
theorem switch_finds_thread_orphan : ∃ s t,
    exec State.next uthreadInit orphanEvents = some s ∧ s.uthreads 1 = none ∧
      s.next .timer = some t ∧ FrontIsLive (s.leave .sigvtalrm) ∧ 1 ∉ t.ready := by
  have result : (exec State.next uthreadInit orphanEvents).map
      (fun s => (s.uthreads 1, (s.next .timer).isSome)) = some (none, true) := by decide +kernel
  obtain ⟨s, run, facts⟩ := Option.map_eq_some_iff.mp result
  obtain ⟨gone, goesOn⟩ := Prod.ext_iff.mp facts
  obtain ⟨t, step⟩ := Option.isSome_iff_exists.mp goesOn
  have safe := switch_finds_thread (exec_reachable (.init rfl) run)
  refine ⟨s, t, run, gone, step, safe.1, safe.2.2.2 1 gone [.timer] t ?_ ?_⟩
  · rw [exec_cons, step, Option.bind_some, exec_nil]
  · exact stepsMeet_of_forall (by simp [DoesNotSpawn]) s

/-! ## The pool -/

theorem Staffed.allHeld_iff (staffed : Staffed s) :
    s.AllHeld ↔ s.tids.unusedIds.keys = [] := by
  rw [List.eq_nil_iff_forall_not_mem]
  constructor
  · intro held id unused
    obtain ⟨positive, below, free⟩ := (staffed.mem_pool_iff id).mp unused
    obtain ⟨thread, found⟩ := held id positive below
    cases free.symm.trans found
  · intro empty id positive below
    rw [State.Live, ← Option.ne_none_iff_exists']
    exact fun free => empty id ((staffed.mem_pool_iff id).mpr ⟨positive, below, free⟩)

theorem Staffed.leastFree (staffed : Staffed s) {id : Int} (unused : id ∈ s.tids.unusedIds.keys)
    (least : ∀ other ∈ s.tids.unusedIds.keys, id ≤ other) : LeastFree s id := by
  obtain ⟨positive, below, free⟩ := (staffed.mem_pool_iff id).mp unused
  refine ⟨positive, below, free, fun other otherPositive smaller => ?_⟩
  rw [State.Live, ← Option.ne_none_iff_exists']
  intro otherFree
  have pooled := (staffed.mem_pool_iff other).mpr
    ⟨otherPositive, smaller.trans below, otherFree⟩
  exact absurd (least other pooled) (not_le.mpr smaller)

theorem Staffed.allocates (staffed : Staffed s) : Allocates s := by
  rcases spawned : uthreadSpawn s with ⟨t, ending⟩
  rcases uthreadSpawn_cases staffed.fit.positive spawned with
    ⟨empty, rfl, rfl⟩ | ⟨id, unused, least, rfl, rfl⟩
  · have held := staffed.allHeld_iff.mpr empty
    constructor
    · simp [spawned, held]
    · simp [spawned]
    · exact fun free => absurd held free
  · have free : ¬ s.AllHeld := by
      rw [staffed.allHeld_iff]
      exact List.ne_nil_of_mem unused
    have notFailed : id ≠ -1 := by
      have positive := staffed.fit.positive id unused
      omega
    constructor
    · simp [spawned, free, notFailed]
    · exact fun held => absurd held free
    · intro _
      refine ⟨id, by rw [spawned], staffed.leastFree unused least, ?_⟩
      rw [spawned]
      exact ⟨_, s.spawned_self id⟩

/-- An id comes into the pool in a call exactly when its thread is
terminated. -/
theorem Staffed.freed_call (staffed : Staffed s) {call : Call} {id : Int}
    (run : call.run s = some (t, ending)) (stays : ∀ code, ending ≠ .exited code)
    (used : id ∉ s.tids.unusedIds.keys) :
    id ∈ t.tids.unusedIds.keys ↔ call = .terminate id ∧ s.Live id := by
  cases call with
  | spawn =>
      rcases uthreadSpawn_cases staffed.fit.positive (Option.some.inj run) with
        ⟨-, rfl, rfl⟩ | ⟨given, -, -, rfl, rfl⟩
      · simp [used]
      · have stillUsed : id ∉ (s.spawned given).tids.unusedIds.keys :=
          fun unused => used (SortedMap.mem_keys_erase.mp unused).2
        simp [stillUsed]
  | terminate tid =>
      have freed : ∀ thread, s.uthreads tid = some thread →
          (id ∈ (s.released tid thread).tids.unusedIds.keys ↔
            Call.terminate tid = .terminate id ∧ s.Live id) := by
        intro thread found
        rw [mem_pool_released, or_iff_left used, Call.terminate.injEq]
        constructor
        · rintro rfl
          exact ⟨rfl, thread, found⟩
        · exact fun isDead => isDead.1.symm
      rcases uthreadTerminate_cases run with ⟨invalid, rfl, rfl⟩ | ⟨-, ending⟩ |
        ⟨-, -, thread, found, -, ⟨-, rfl, -⟩ | ⟨-, rfl, -⟩⟩
      · refine (iff_of_false used ?_)
        rintro ⟨same, live⟩
        cases same
        exact absurd (staffed.isValid_of_live live) (by simp [invalid])
      · exact absurd ending (stays 0)
      · exact freed thread found
      · exact freed thread found
  | block tid =>
      rcases uthreadBlock_cases run with ⟨rfl, -⟩ | ⟨-, thread, found, ⟨-, rfl, -⟩ | ⟨-, -, rfl, -⟩⟩
      all_goals exact iff_of_false used fun freed => nomatch freed.1
  | resume tid =>
      obtain ⟨-, rfl | ⟨-, thread, found, -, ⟨-, rfl⟩ | ⟨-, rfl⟩⟩⟩ := uthreadResume_cases run
      all_goals exact iff_of_false used fun freed => nomatch freed.1
  | sync tid =>
      rcases uthreadSync_cases run with
        ⟨rfl, -⟩ | ⟨-, other, thread, target, found, isTarget, rfl, -⟩
      all_goals exact iff_of_false used fun freed => nomatch freed.1

theorem Manned.freed_next (manned : Manned s) {event : Event} {id : Int}
    (step : s.next event = some t) :
    (id ∉ s.tids.unusedIds.keys ∧ id ∈ t.tids.unusedIds.keys) ↔
      event = .call (.terminate id) ∧ s.Live id := by
  by_cases unused : id ∈ s.tids.unusedIds.keys
  · refine iff_of_false (fun freed => freed.1 unused) ?_
    rintro ⟨-, thread, found⟩
    cases (manned.pool_free id unused).symm.trans found
  rw [and_iff_right unused]
  cases event with
  | timer =>
      rw [switchThreads_tids step]
      exact iff_of_false unused (fun freed => nomatch freed.1)
  | call call =>
      obtain ⟨u, ending, run, stays, tids⟩ := next_call_tids step
      rw [Event.call.injEq, tids]
      exact manned.freed_call run stays unused

/-- **The pool of ids.** In every reachable state the pool holds exactly the ids
in range without a thread. `uthread_spawn` gives out the least of them, and
fails without effect exactly if there is none; and an id comes into the pool
exactly when its thread is terminated. -/
theorem pool_is_free (reachable : library.Reachable s) :
    (∀ id, id ∈ s.tids.unusedIds.keys ↔ 0 < id ∧ id < maxThreadNum ∧ s.uthreads id = none) ∧
      Allocates s ∧
      ∀ event t id, s.next event = some t →
        ((id ∉ s.tids.unusedIds.keys ∧ id ∈ t.tids.unusedIds.keys) ↔
          event = .call (.terminate id) ∧ s.Live id) := by
  have manned := manned_of_reachable reachable
  exact ⟨manned.mem_pool_iff, manned.allocates, fun _ _ _ step => manned.freed_next step⟩

/-- The first of two threads terminates itself. -/
theorem pool_is_free_selfTerminated : ∃ s,
    exec State.next uthreadInit [.call .spawn, .call .spawn, .timer, .call (.terminate 1)] =
        some s ∧
      1 ∈ s.tids.unusedIds.keys ∧ Allocates s := by
  have result : (exec State.next uthreadInit
      [.call .spawn, .call .spawn, .timer, .call (.terminate 1)]).map (fun s => s.uthreads 1) =
        some none := by decide +kernel
  obtain ⟨s, run, free⟩ := Option.map_eq_some_iff.mp result
  obtain ⟨mem, allocates, -⟩ := pool_is_free (exec_reachable (.init rfl) run)
  exact ⟨s, run, (mem 1).mpr ⟨by decide, by decide, free⟩, allocates⟩

end Os2018.Uthreads
