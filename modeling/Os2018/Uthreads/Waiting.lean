import Os2018.Uthreads.Scheduler

/-!
# Waiting for a thread, and being blocked

A thread that calls `uthread_sync` waits for one incarnation of an id, which its
stack names, and a blocked thread waits for a call of `uthread_resume`. A thread
that lives after a step is the same incarnation as before, with at least the
same dependents and still blocked unless it was resumed, or it is new
(`Continues`). So what a thread waits for stays on record, and a thread on
record is neither ready nor running (`waits_until_released`).

This too needs runs that do not terminate a waiting thread. The id that such a
termination leaves behind names the next thread spawned under it, and wakes that
one early (`stale_id_wakes_another`).
-/

set_option autoImplicit false

namespace Os2018.Uthreads

open Transition

variable {s t u : State} {tid : Int} {ending : Ending} {resumed : Int → Prop}

/-! ## What becomes of a thread -/

/-- Every live thread afterwards is new, or continues a thread from before. -/
structure Continues (resumed : Int → Prop) (s t : State) : Prop where
  nextStack : s.nextStack ≤ t.nextStack
  thread : ∀ i after, t.uthreads i = some after → s.nextStack ≤ after.stack ∨
    ∃ before, s.uthreads i = some before ∧ before.stack = after.stack ∧
      before.syncDependencies ⊆ after.syncDependencies ∧
      (before.blockedDirectly = true → after.blockedDirectly = true ∨ resumed i)

theorem Continues.of_eq (uthreads : t.uthreads = s.uthreads)
    (nextStack : t.nextStack = s.nextStack) :
    Continues resumed s t where
  nextStack := nextStack.ge
  thread := fun _ after found =>
    .inr ⟨after, uthreads ▸ found, rfl, List.Subset.refl _, fun blocked => .inl blocked⟩

theorem Continues.trans (first : Continues resumed s t) (second : Continues resumed t u) :
    Continues resumed s u where
  nextStack := first.nextStack.trans second.nextStack
  thread := by
    intro i last isLast
    rcases second.thread i last isLast with new | ⟨after, isAfter, stack, lists, flag⟩
    · exact .inl (first.nextStack.trans new)
    rcases first.thread i after isAfter with new | ⟨before, isBefore, stack', lists', flag'⟩
    · exact .inl (stack ▸ new)
    · refine .inr ⟨before, isBefore, stack'.trans stack, List.Subset.trans lists' lists,
        fun blocked => ?_⟩
      rcases flag' blocked with still | wasResumed
      · exact flag still
      · exact .inr wasResumed

theorem continues_setThread {before after : Thread} (found : s.uthreads tid = some before)
    (stack : before.stack = after.stack)
    (lists : before.syncDependencies ⊆ after.syncDependencies)
    (flag : before.blockedDirectly = true → after.blockedDirectly = true ∨ resumed tid) :
    Continues resumed s (s.setThread tid (some after)) where
  nextStack := le_rfl
  thread := by
    intro i thread isThread
    by_cases same : i = tid
    · subst same
      rw [State.setThread_self, Option.some.injEq] at isThread
      subst isThread
      exact .inr ⟨before, found, stack, lists, flag⟩
    · rw [State.setThread_of_ne _ _ _ same] at isThread
      exact .inr ⟨thread, isThread, rfl, List.Subset.refl _, fun blocked => .inl blocked⟩

theorem continues_deleteThread (s : State) (tid : Int) :
    Continues resumed s (s.deleteThread tid) where
  nextStack := le_rfl
  thread := by
    intro i thread isThread
    exact .inr ⟨thread, (deleteThread_find.mp isThread).2, rfl, List.Subset.refl _,
      fun blocked => .inl blocked⟩

theorem continues_dispatch (picked : s.dispatch = some t) : Continues resumed s t := by
  obtain ⟨next, ready, thread, -, found, rfl⟩ := dispatch_cases picked
  have counted : Continues resumed s
      (s.setThread next (some { thread with quantums := thread.quantums + 1 })) :=
    continues_setThread found rfl (List.Subset.refl _) fun blocked => .inl blocked
  exact counted.trans (.of_eq rfl rfl)

theorem continues_switchThreads {signum : Signum} (switched : switchThreads s signum = some t) :
    Continues resumed s t := by
  refine Continues.trans ?_ (continues_dispatch switched)
  cases signum with
  | sigvtalrm => exact .of_eq rfl rfl
  | terminateSwitch => exact continues_deleteThread s _
  | blockSwitch => exact .of_eq rfl rfl

theorem continues_spawned (s : State) (id : Int) : Continues resumed s (s.spawned id) where
  nextStack := Nat.le_succ _
  thread := by
    intro i thread isThread
    by_cases same : i = id
    · subst same
      rw [s.spawned_self, Option.some.injEq] at isThread
      subst isThread
      exact .inl le_rfl
    · rw [s.spawned_of_ne same] at isThread
      exact .inr ⟨thread, isThread, rfl, List.Subset.refl _, fun blocked => .inl blocked⟩

theorem continues_released (s : State) (tid : Int) (thread : Thread) :
    Continues resumed s (s.released tid thread) where
  nextStack := le_rfl
  thread := by
    intro i after isAfter
    obtain ⟨before, isBefore, rfl⟩ := released_find.mp isAfter
    refine .inr ⟨before, isBefore, ?_⟩
    split_ifs
    · exact ⟨rfl, List.Subset.refl _, fun blocked => .inl blocked⟩
    · exact ⟨rfl, List.Subset.refl _, fun blocked => .inl blocked⟩

theorem continues_syncedTo (s : State) (waiter target : Int) :
    Continues resumed s (s.syncedTo waiter target) where
  nextStack := le_rfl
  thread := by
    intro i after isAfter
    obtain ⟨before, isBefore, rfl⟩ := syncedTo_find.mp isAfter
    exact .inr ⟨before, isBefore, rfl, List.subset_append_left _ _, fun blocked => .inl blocked⟩

/-- The threads that an event resumes. -/
def Resumes (event : Event) (tid : Int) : Prop := event = .call (.resume tid)

theorem continues_call {call : Call} (positive : ∀ id ∈ s.tids.unusedIds.keys, 0 < id)
    (run : call.run s = some (t, ending)) (stays : ∀ code, ending ≠ .exited code) :
    Continues (Resumes (.call call)) s t := by
  cases call with
  | spawn =>
      rcases uthreadSpawn_cases positive (Option.some.inj run) with
        ⟨-, rfl, -⟩ | ⟨id, -, -, rfl, -⟩
      · exact .of_eq rfl rfl
      · exact continues_spawned s id
  | terminate tid =>
      rcases uthreadTerminate_cases run with ⟨-, rfl, -⟩ | ⟨-, exits⟩ |
        ⟨-, -, thread, -, -, ⟨-, rfl, -⟩ | ⟨-, rfl, -⟩⟩
      · exact .of_eq rfl rfl
      · exact absurd exits (stays 0)
      · exact continues_released s tid thread
      · exact (continues_released s tid thread).trans (continues_deleteThread _ tid)
  | block tid =>
      have blocks : ∀ thread, s.uthreads tid = some thread →
          Continues (Resumes (.call (.block tid))) s
            (s.setThread tid (some { thread with blockedDirectly := true })) :=
        fun thread found => continues_setThread found rfl (List.Subset.refl _) fun _ => .inl rfl
      rcases uthreadBlock_cases run with ⟨rfl, -⟩ |
        ⟨-, thread, found, ⟨-, rfl, -⟩ | ⟨-, -, rfl, -⟩⟩
      · exact .of_eq rfl rfl
      · exact blocks thread found
      · exact (blocks thread found).trans (.of_eq rfl rfl)
  | resume tid =>
      have resumes : ∀ thread, s.uthreads tid = some thread →
          Continues (Resumes (.call (.resume tid))) s
            (s.setThread tid (some { thread with blockedDirectly := false })) :=
        fun thread found => continues_setThread found rfl (List.Subset.refl _) fun _ => .inr rfl
      obtain ⟨-, rfl | ⟨-, thread, found, -, ⟨-, rfl⟩ | ⟨-, rfl⟩⟩⟩ := uthreadResume_cases run
      · exact .of_eq rfl rfl
      · exact resumes thread found
      · exact (resumes thread found).trans (.of_eq rfl rfl)
  | sync tid =>
      rcases uthreadSync_cases run with ⟨rfl, -⟩ |
        ⟨-, other, thread, target, found, isTarget, rfl, -⟩
      · exact .of_eq rfl rfl
      · rw [syncedTo_eq other found isTarget]
        exact continues_syncedTo s _ tid

theorem continues_next (running : Running s) {event : Event} (step : s.next event = some t) :
    Continues (Resumes event) s t := by
  cases event with
  | call call =>
      rcases next_call_cases step with ⟨_, _, run⟩ | ⟨u, signum, run, switched⟩
      · exact continues_call running.positive run fun _ => Ending.noConfusion
      · exact (continues_call running.positive run fun _ => Ending.noConfusion).trans
          (continues_switchThreads switched)
  | timer => exact continues_switchThreads step

/-! ## What stays on record -/

/-- The incarnation of an id that has this stack is alive. -/
def State.HasIncarnation (s : State) (tid : Int) (stack : Nat) : Prop :=
  ∃ thread, s.uthreads tid = some thread ∧ thread.stack = stack

/-- As long as the incarnation lives, its list has the waiting thread. -/
def State.Recorded (s : State) (waiter target : Int) (stack : Nat) : Prop :=
  stack < s.nextStack ∧ ∀ thread, s.uthreads target = some thread → thread.stack = stack →
    waiter ∈ thread.syncDependencies

/-- As long as the incarnation lives, it is blocked. -/
def State.Held (s : State) (tid : Int) (stack : Nat) : Prop :=
  stack < s.nextStack ∧ ∀ thread, s.uthreads tid = some thread → thread.stack = stack →
    thread.blockedDirectly = true

theorem Continues.recorded (continues : Continues resumed s t) {waiter target : Int} {stack : Nat}
    (recorded : s.Recorded waiter target stack) : t.Recorded waiter target stack := by
  refine ⟨recorded.1.trans_le continues.nextStack, fun thread found isStack => ?_⟩
  rcases continues.thread target thread found with new | ⟨before, isBefore, same, lists, -⟩
  · have := recorded.1
    omega
  · exact lists (recorded.2 before isBefore (same.trans isStack))

theorem Continues.held (continues : Continues resumed s t) {stack : Nat}
    (notResumed : ¬ resumed tid) (held : s.Held tid stack) : t.Held tid stack := by
  refine ⟨held.1.trans_le continues.nextStack, fun thread found isStack => ?_⟩
  rcases continues.thread tid thread found with new | ⟨before, isBefore, same, -, flag⟩
  · have := held.1
    omega
  · exact (flag (held.2 before isBefore (same.trans isStack))).resolve_right notResumed

/-- A thread that is not awake is neither ready nor running. -/
theorem Running.stopped (running : Running s) (asleep : ¬ s.Awake tid) :
    tid ∉ s.ready ∧ s.currentThread ≠ tid :=
  ⟨fun member => asleep ((running.ready_iff tid).mp member).2,
    fun isCurrent => asleep (isCurrent ▸ running.current)⟩

theorem Running.stopped_of_recorded (running : Running s) {waiter target : Int} {stack : Nat}
    (recorded : s.Recorded waiter target stack) (lives : s.HasIncarnation target stack) :
    waiter ∉ s.ready ∧ s.currentThread ≠ waiter := by
  obtain ⟨thread, found, isStack⟩ := lives
  exact running.stopped fun awake =>
    running.synced.not_mem_of_awake awake found (recorded.2 thread found isStack)

theorem Running.stopped_of_held (running : Running s) {stack : Nat} (held : s.Held tid stack)
    (lives : s.HasIncarnation tid stack) : tid ∉ s.ready ∧ s.currentThread ≠ tid := by
  obtain ⟨thread, found, isStack⟩ := lives
  apply running.stopped
  intro awake
  have free := ((awake_iff_unblocked found).mp awake).1
  exact Bool.false_ne_true (free.symm.trans (held.2 thread found isStack))

/-! ## What the two calls put on record -/

theorem recorded_of_sync (running : Running s) {target : Thread}
    (isTarget : s.uthreads tid = some target) {signum : Signum}
    (synced : uthreadSync s tid = some (u, .switching signum))
    (switched : switchThreads u signum = some t) :
    t.Recorded s.currentThread tid target.stack := by
  have switch : Continues (fun _ => False) u t := continues_switchThreads switched
  apply switch.recorded
  rcases uthreadSync_cases synced with ⟨-, impossible⟩ |
    ⟨-, other, thread, target', found, isTarget', rfl, -⟩
  · cases impossible
  · rw [syncedTo_eq other found isTarget']
    refine ⟨running.allocated tid target isTarget, fun after isAfter _ => ?_⟩
    obtain ⟨before, -, rfl⟩ := syncedTo_find.mp isAfter
    simp [Thread.tied]

theorem held_of_block (running : Running s) {thread : Thread} (notMain : tid ≠ mainThreadId)
    (found : s.uthreads tid = some thread) (step : s.next (.call (.block tid)) = some t) :
    t.Held tid thread.stack := by
  have fresh := running.allocated tid thread found
  have blocks : (s.setThread tid (some { thread with blockedDirectly := true })).Held tid
      thread.stack := by
    refine ⟨fresh, fun after isAfter _ => ?_⟩
    rw [State.setThread_self, Option.some.injEq] at isAfter
    rw [← isAfter]
  rcases next_call_cases step with ⟨_, _, run⟩ | ⟨u, signum, run, switched⟩
  · rcases uthreadBlock_cases run with ⟨rfl, -, unused | isMain | ⟨thread', found', blocked⟩⟩ |
      ⟨-, thread', found', ⟨-, -, impossible⟩ | ⟨-, -, rfl, -⟩⟩
    · rw [running.isValid_of_live found] at unused
      cases unused
    · exact absurd isMain notMain
    · refine ⟨fresh, fun after isAfter _ => ?_⟩
      rw [found', Option.some.injEq] at isAfter
      exact isAfter ▸ blocked
    · cases impossible
    · rw [found, Option.some.injEq] at found'
      exact found' ▸ blocks
  · have switch : Continues (fun _ => False) u t := continues_switchThreads switched
    apply switch.held id
    rcases uthreadBlock_cases run with ⟨-, ⟨_, _, impossible⟩, -⟩ |
      ⟨-, thread', found', ⟨-, rfl, -⟩ | ⟨-, -, -, impossible⟩⟩
    · cases impossible
    · rw [found, Option.some.injEq] at found'
      exact found' ▸ blocks
    · cases impossible

/-- **Meaning of sync and block.** In a run that does not terminate waiting
threads: after a successful `uthread_sync`, the caller is neither ready nor
running while the incarnation it waits for lives; and after `uthread_block`, the
blocked thread is neither ready nor running before it is resumed. -/
theorem waits_until_released {before after : List Event} {event : Event}
    (earlier : exec State.next uthreadInit before = some s) (step : s.next event = some t)
    (later : exec State.next t after = some u)
    (spares : StepsMeet State.next SparesWaiting uthreadInit (before ++ event :: after)) :
    (∀ target thread s' signum, event = .call (.sync target) →
      s.uthreads target = some thread → uthreadSync s target = some (s', .switching signum) →
      u.HasIncarnation target thread.stack →
        s.currentThread ∉ u.ready ∧ u.currentThread ≠ s.currentThread) ∧
      ∀ a thread, event = .call (.block a) → a ≠ mainThreadId → s.uthreads a = some thread →
        .call (.resume a) ∉ after → u.HasIncarnation a thread.stack →
          a ∉ u.ready ∧ u.currentThread ≠ a := by
  obtain ⟨sparesBefore, rest⟩ := (stepsMeet_append earlier).mp spares
  obtain ⟨spared, sparesAfter⟩ := (stepsMeet_cons step).mp rest
  have keep : ∀ s event t, Running s → SparesWaiting s event → s.next event = some t → Running t :=
    fun _ _ _ running spared step => running.next spared step
  have running : Running s := exec_invariant keep earlier sparesBefore running_init
  have runningAfter : Running t := running.next spared step
  have runningLast : Running u := exec_invariant keep later sparesAfter runningAfter
  constructor
  · rintro target thread s' signum rfl isTarget synced lives
    have switched : switchThreads s' signum = some t := by
      rw [State.next, Call.run, synced] at step
      exact step
    have recorded := recorded_of_sync running isTarget synced switched
    have both : Running u ∧ u.Recorded s.currentThread target thread.stack := by
      refine exec_invariant (P := fun v => Running v ∧ v.Recorded s.currentThread target _)
        (C := SparesWaiting) ?_ later sparesAfter ⟨runningAfter, recorded⟩
      rintro v event w ⟨runs, kept⟩ spared step
      exact ⟨runs.next spared step, (continues_next runs step).recorded kept⟩
    exact runningLast.stopped_of_recorded both.2 lives
  · rintro a thread rfl notMain found notResumed lives
    have held := held_of_block running notMain found step
    have both : Running u ∧ u.Held a thread.stack := by
      refine exec_invariant (P := fun v => Running v ∧ v.Held a _)
        (C := fun v event => SparesWaiting v event ∧ event ≠ .call (.resume a)) ?_ later ?_
        ⟨runningAfter, held⟩
      · rintro v event w ⟨runs, kept⟩ ⟨spared, other⟩ step
        exact ⟨runs.next spared step, (continues_next runs step).held other kept⟩
      · intro first event rest v split run
        refine ⟨sparesAfter first event rest v split run, fun isResume => notResumed ?_⟩
        rw [split, isResume]
        exact List.mem_append_right _ List.mem_cons_self
    exact runningLast.stopped_of_held both.2 lives

/-- Blocked and resumed by the main thread, thread 1 goes on waiting for
thread 2. -/
theorem waits_until_released_blocked : ∃ s t u target,
    exec State.next uthreadInit [.call .spawn, .call .spawn, .timer] = some s ∧
      s.next (.call (.sync 2)) = some t ∧
      exec State.next t [.timer, .call (.block 1), .call (.resume 1)] = some u ∧
      s.uthreads 2 = some target ∧ u.HasIncarnation 2 target.stack ∧
      s.currentThread ∉ u.ready := by
  have result : (exec State.next uthreadInit [.call .spawn, .call .spawn, .timer]).map
      (fun s => (s.uthreads 2, (uthreadSync s 2).map Prod.snd, (s.next (.call (.sync 2))).map
        fun t => (exec State.next t [.timer, .call (.block 1), .call (.resume 1)]).map
          fun u => u.uthreads 2)) =
      some (some ⟨false, false, 0, [], 2⟩, some (.switching .blockSwitch),
        some (some (some ⟨false, false, 1, [1], 2⟩))) := by decide +kernel
  obtain ⟨s, earlier, facts⟩ := Option.map_eq_some_iff.mp result
  simp only [Prod.mk.injEq] at facts
  obtain ⟨isTarget, synced, facts⟩ := facts
  obtain ⟨⟨s', ending⟩, synced, rfl⟩ := Option.map_eq_some_iff.mp synced
  obtain ⟨t, step, facts⟩ := Option.map_eq_some_iff.mp facts
  obtain ⟨u, later, lives⟩ := Option.map_eq_some_iff.mp facts
  have spares : StepsMeet State.next SparesWaiting uthreadInit
      ([.call .spawn, .call .spawn, .timer] ++ .call (.sync 2) ::
        [.timer, .call (.block 1), .call (.resume 1)]) :=
    stepsMeet_of_forall (by simp [SparesWaiting]) _
  have incarnation : u.HasIncarnation 2 2 := ⟨_, lives, rfl⟩
  exact ⟨s, t, u, _, earlier, step, later, isTarget, incarnation,
    ((waits_until_released earlier step later spares).1 2 _ s' _ rfl isTarget synced
      incarnation).1⟩

/-- A new thread 1 waits for thread 3 while the id of an old one is still among
the dependents of thread 2. -/
def reusedIdEvents : List Event :=
  [.call .spawn, .call .spawn, .call .spawn, .timer, .call (.sync 2), .timer, .timer,
    .call (.terminate 1), .call .spawn, .timer, .timer, .timer]

/-- **A stale id wakes another thread.** The termination of thread 2 makes the
new thread 1 ready, although thread 3, for which it waits, still lives. -/
theorem stale_id_wakes_another : ∃ s s' t u target,
    exec State.next uthreadInit reusedIdEvents = some s ∧ s.currentThread = 1 ∧
      s.uthreads 3 = some target ∧ uthreadSync s 3 = some (s', .switching .blockSwitch) ∧
      s.next (.call (.sync 3)) = some t ∧
      exec State.next t [.call (.terminate 2)] = some u ∧
      u.HasIncarnation 3 target.stack ∧ s.currentThread ∈ u.ready := by
  have result : (exec State.next uthreadInit reusedIdEvents).map
      (fun s => (s.uthreads 3, (uthreadSync s 3).map Prod.snd,
        (s.next (.call (.sync 3))).bind fun t => (exec State.next t [.call (.terminate 2)]).map
          fun u => (u.uthreads 3, u.ready))) =
      some (some ⟨false, false, 2, [], 3⟩, some (.switching .blockSwitch),
        some (some ⟨false, false, 2, [1], 3⟩, [3, 1])) := by decide +kernel
  have caller : (exec State.next uthreadInit reusedIdEvents).map State.currentThread = some 1 := by
    decide +kernel
  obtain ⟨s, earlier, facts⟩ := Option.map_eq_some_iff.mp result
  rw [earlier, Option.map_some, Option.some.injEq] at caller
  simp only [Prod.mk.injEq] at facts
  obtain ⟨isTarget, synced, facts⟩ := facts
  obtain ⟨⟨s', ending⟩, synced, rfl⟩ := Option.map_eq_some_iff.mp synced
  obtain ⟨t, step, facts⟩ := Option.bind_eq_some_iff.mp facts
  obtain ⟨u, later, facts⟩ := Option.map_eq_some_iff.mp facts
  obtain ⟨lives, ready⟩ := Prod.ext_iff.mp facts
  refine ⟨s, s', t, u, _, earlier, caller, isTarget, synced, step, later, ⟨_, lives, rfl⟩, ?_⟩
  rw [caller, show u.ready = [3, 1] from ready]
  exact List.mem_cons_of_mem _ List.mem_cons_self

end Os2018.Uthreads
