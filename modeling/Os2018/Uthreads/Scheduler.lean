import Os2018.Uthreads.Operations

/-!
# The scheduler's data

The ready queue, the two flags of every thread, the lists of dependents and the
pool of ids describe the same threads. `Running` says how they agree while a
thread runs, and `Idle` how they agree inside `switch_threads`, once it has dealt
with the thread it leaves and before it picks the next one.

The lists of dependents agree with the flags as long as nobody terminates a
thread that waits for another: `uthread_terminate` leaves the id of such a
thread in the list of the thread it waits for. Every other step keeps the data
consistent, so a run keeps it exactly when it has no such step
(`represented_iff`).
-/

set_option autoImplicit false

namespace Os2018.Uthreads

open Transition

variable {s t : State} {tid : Int} {ending : Ending}

/-! ## How the data agree -/

/-- A live thread with neither flag set. -/
def State.Awake (s : State) (tid : Int) : Prop :=
  ∃ thread, s.uthreads tid = some thread ∧ thread.Unblocked

/-- The id occurs exactly once in the lists of all live threads together. -/
def State.ListedOnce (s : State) (i : Int) : Prop :=
  ∃ u thread, s.uthreads u = some thread ∧ thread.syncDependencies.count i = 1 ∧
    ∀ v other, s.uthreads v = some other → i ∈ other.syncDependencies → v = u

/-- The representation that the library relies on between API calls. -/
structure State.Represented (s : State) : Prop where
  ready_nodup : s.ready.Nodup
  current_not_ready : s.currentThread ∉ s.ready
  ready_iff : ∀ tid thread, s.uthreads tid = some thread → tid ≠ s.currentThread →
    (tid ∈ s.ready ↔ thread.blockedDirectly = false ∧ thread.syncBlocked = false)
  current_unblocked : ∃ thread, s.uthreads s.currentThread = some thread ∧
    thread.blockedDirectly = false ∧ thread.syncBlocked = false
  dependency : ∀ u thread i, s.uthreads u = some thread → i ∈ thread.syncDependencies →
    (∃ dependent, s.uthreads i = some dependent ∧ dependent.syncBlocked = true) ∧ s.ListedOnce i
  listed : ∀ i thread, s.uthreads i = some thread → thread.syncBlocked = true → s.ListedOnce i

/-- The lists of dependents agree with the flags. -/
structure Synced (s : State) : Prop where
  waiting : ∀ u thread i, s.uthreads u = some thread → i ∈ thread.syncDependencies →
    i ≠ u ∧ ∃ dependent, s.uthreads i = some dependent ∧ dependent.syncBlocked = true
  listed : ∀ i thread, s.uthreads i = some thread → thread.syncBlocked = true → s.ListedOnce i

/-- What holds at every point of the library's code, up to a thread that is
being terminated. -/
structure Accounted (s : State) : Prop where
  maxId : s.tids.maxId = maxThreadNum
  pool : ∀ i, i ∈ s.tids.unusedIds.keys ↔ 0 < i ∧ i < maxThreadNum ∧ s.uthreads i = none
  inRange : ∀ i thread, s.uthreads i = some thread → 0 ≤ i ∧ i < maxThreadNum
  allocated : ∀ i thread, s.uthreads i = some thread → thread.stack < s.nextStack
  main : s.Awake mainThreadId
  ready_nodup : s.ready.Nodup
  synced : Synced s

/-- All threads without flags are ready, but the current one. -/
structure Settled (s : State) : Prop extends Accounted s where
  ready_iff : ∀ i, i ∈ s.ready ↔ i ≠ s.currentThread ∧ s.Awake i

/-- A thread runs. -/
structure Running (s : State) : Prop extends Settled s where
  current : s.Awake s.currentThread

/-- No thread runs: all threads without flags are ready. -/
structure Idle (s : State) : Prop extends Accounted s where
  ready_iff : ∀ i, i ∈ s.ready ↔ s.Awake i

theorem Settled.idle (settled : Settled s) (stopped : ¬ s.Awake s.currentThread) : Idle s where
  toAccounted := settled.toAccounted
  ready_iff := by
    intro i
    rw [settled.ready_iff]
    exact ⟨And.right, fun awake => ⟨fun same => stopped (same ▸ awake), awake⟩⟩

theorem Running.represented (running : Running s) : s.Represented where
  ready_nodup := running.ready_nodup
  current_not_ready := fun member => ((running.ready_iff _).mp member).1 rfl
  ready_iff := by
    intro tid thread found other
    rw [running.ready_iff]
    constructor
    · rintro ⟨-, thread', found', unblocked⟩
      rw [found, Option.some.injEq] at found'
      exact found' ▸ unblocked
    · exact fun unblocked => ⟨other, thread, found, unblocked⟩
  current_unblocked := running.current
  dependency := by
    intro u thread i found member
    obtain ⟨-, dependent, isLive, waits⟩ := running.synced.waiting u thread i found member
    exact ⟨⟨dependent, isLive, waits⟩, running.synced.listed i dependent isLive waits⟩
  listed := running.synced.listed

/-- A thread without flags does not wait for another. -/
theorem Synced.not_mem_of_awake (synced : Synced s) {i u : Int} {thread : Thread}
    (awake : s.Awake i) (found : s.uthreads u = some thread) : i ∉ thread.syncDependencies := by
  intro member
  obtain ⟨-, dependent, isLive, waits⟩ := synced.waiting u thread i found member
  obtain ⟨thread', found', unblocked⟩ := awake
  rw [isLive, Option.some.injEq] at found'
  subst found'
  exact Bool.false_ne_true (unblocked.2.symm.trans waits)

theorem Synced.dependents_nodup (synced : Synced s) {thread : Thread}
    (found : s.uthreads tid = some thread) : thread.syncDependencies.Nodup := by
  rw [List.nodup_iff_count_le_one]
  intro i
  by_cases member : i ∈ thread.syncDependencies
  · obtain ⟨-, dependent, isLive, waits⟩ := synced.waiting tid thread i found member
    obtain ⟨u, lister, isLister, once, only⟩ := synced.listed i dependent isLive waits
    obtain rfl := only tid thread found member
    rw [found, Option.some.injEq] at isLister
    rw [isLister, once]
  · rw [List.count_eq_zero_of_not_mem member]
    exact Nat.zero_le 1

/-! ## Steps that keep the ties between threads -/

/-- What a thread has to do with other threads, and which one it is. -/
def Thread.ties (thread : Thread) : Bool × List Int × Nat :=
  (thread.syncBlocked, thread.syncDependencies, thread.stack)

/-- The threads of two states have the same ties. -/
def SameTies (s t : State) : Prop :=
  ∀ i, (t.uthreads i).map Thread.ties = (s.uthreads i).map Thread.ties

theorem SameTies.find (same : SameTies s t) {i : Int} {thread : Thread}
    (found : t.uthreads i = some thread) :
    ∃ before, s.uthreads i = some before ∧ before.syncBlocked = thread.syncBlocked ∧
      before.syncDependencies = thread.syncDependencies ∧ before.stack = thread.stack := by
  have ties := same i
  rw [found, Option.map_some, eq_comm, Option.map_eq_some_iff] at ties
  obtain ⟨before, isBefore, equal⟩ := ties
  simp only [Thread.ties, Prod.mk.injEq] at equal
  exact ⟨before, isBefore, equal⟩

theorem SameTies.symm (same : SameTies s t) : SameTies t s := fun i => (same i).symm

theorem sameTies_setThread {thread thread' : Thread} (found : s.uthreads tid = some thread)
    (same : thread'.ties = thread.ties) : SameTies s (s.setThread tid (some thread')) := by
  intro i
  by_cases isTid : i = tid
  · rw [isTid, State.setThread_self, found, Option.map_some, Option.map_some, same]
  · rw [State.setThread_of_ne _ _ _ isTid]

theorem awake_setThread {thread : Thread} (i : Int) :
    (s.setThread tid (some thread)).Awake i ↔
      (i = tid ∧ thread.Unblocked) ∨ (i ≠ tid ∧ s.Awake i) := by
  by_cases same : i = tid
  · simp [State.Awake, same]
  · simp [State.Awake, same]

theorem SameTies.listedOnce (same : SameTies s t) {i : Int} (listed : s.ListedOnce i) :
    t.ListedOnce i := by
  obtain ⟨u, thread, found, once, only⟩ := listed
  obtain ⟨after, isAfter, -, lists, -⟩ := same.symm.find found
  refine ⟨u, after, isAfter, lists ▸ once, fun v other found' member => ?_⟩
  obtain ⟨before, isBefore, -, lists', -⟩ := same.find found'
  exact only v before isBefore (lists' ▸ member)

theorem SameTies.synced (same : SameTies s t) (synced : Synced s) : Synced t where
  waiting := by
    intro u thread i found member
    obtain ⟨before, isBefore, -, lists, -⟩ := same.find found
    obtain ⟨other, dependent, isLive, waits⟩ :=
      synced.waiting u before i isBefore (lists ▸ member)
    obtain ⟨after, isAfter, flag, -, -⟩ := same.symm.find isLive
    exact ⟨other, after, isAfter, flag.trans waits⟩
  listed := by
    intro i thread found waits
    obtain ⟨before, isBefore, flag, -, -⟩ := same.find found
    exact same.listedOnce (synced.listed i before isBefore (flag.trans waits))

theorem SameTies.none_iff (same : SameTies s t) (i : Int) :
    t.uthreads i = none ↔ s.uthreads i = none := by
  rw [← Option.map_eq_none_iff, same i, Option.map_eq_none_iff]

/-- The same threads, and a queue that is accounted for. -/
theorem Accounted.of_sameTies (accounted : Accounted s) (same : SameTies s t)
    (tids : t.tids = s.tids) (nextStack : t.nextStack = s.nextStack) (nodup : t.ready.Nodup)
    (main : t.Awake mainThreadId) : Accounted t where
  maxId := by rw [tids, accounted.maxId]
  pool := by
    intro i
    rw [tids, same.none_iff, accounted.pool]
  inRange := by
    intro i thread found
    obtain ⟨before, isBefore, -⟩ := same.find found
    exact accounted.inRange i before isBefore
  allocated := by
    intro i thread found
    obtain ⟨before, isBefore, -, -, stack⟩ := same.find found
    rw [nextStack, ← stack]
    exact accounted.allocated i before isBefore
  main := main
  ready_nodup := nodup
  synced := same.synced accounted.synced

/-! ## Switches -/

theorem Running.leave_timer (running : Running s) : Idle (s.leave .sigvtalrm) where
  toAccounted := running.of_sameTies (fun _ => rfl) rfl rfl
    (by
      have notReady : s.currentThread ∉ s.ready := running.represented.current_not_ready
      refine List.nodup_append.mpr ⟨running.ready_nodup, List.nodup_singleton _, ?_⟩
      rintro i member _ isCurrent rfl
      exact notReady (List.mem_singleton.mp isCurrent ▸ member))
    running.main
  ready_iff := by
    intro i
    rw [State.leave, State.pushReady, List.mem_append, List.mem_singleton, running.ready_iff]
    constructor
    · rintro (⟨-, awake⟩ | rfl)
      · exact awake
      · exact running.current
    · intro awake
      by_cases same : i = s.currentThread
      · exact .inr same
      · exact .inl ⟨same, awake⟩

theorem Idle.dispatch (idle : Idle s) (picked : s.dispatch = some t) : Running t := by
  obtain ⟨next, ready, thread, queue, found, rfl⟩ := dispatch_cases picked
  have same : SameTies s
      (s.setThread next (some { thread with quantums := thread.quantums + 1 })) :=
    sameTies_setThread found rfl
  have awake_iff : ∀ i, (s.setThread next
      (some { thread with quantums := thread.quantums + 1 })).Awake i ↔ s.Awake i := by
    intro i
    rw [awake_setThread]
    by_cases isNext : i = next
    · subst isNext
      simp [State.Awake, found, Thread.Unblocked]
    · simp [isNext]
  have nodup := idle.ready_nodup
  rw [queue] at nodup
  obtain ⟨notLater, nodup⟩ := List.nodup_cons.mp nodup
  refine ⟨⟨idle.of_sameTies same rfl rfl nodup ((awake_iff _).mpr idle.main), fun i => ?_⟩, ?_⟩
  · change i ∈ ready ↔ i ≠ next ∧ (s.setThread next _).Awake i
    rw [awake_iff, ← idle.ready_iff, queue, List.mem_cons]
    constructor
    · intro member
      exact ⟨fun isNext => notLater (isNext ▸ member), .inr member⟩
    · rintro ⟨other, isNext | member⟩
      · exact absurd isNext other
      · exact member
  · exact (awake_iff next).mpr ((idle.ready_iff next).mp (by rw [queue]; exact List.mem_cons_self))

/-! ## Calls -/

theorem Accounted.awake_live (accounted : Accounted s) {id : Int}
    (unused : id ∈ s.tids.unusedIds.keys) : ¬ s.Awake id := by
  rintro ⟨thread, found, -⟩
  rw [((accounted.pool id).mp unused).2.2] at found
  cases found

theorem isValid_eq_false {tids : UniqueId} {id : Int} :
    tids.isValid id = false ↔ id < tids.maxId ∧ 0 ≤ id ∧ id ∈ tids.unusedIds.keys := by
  rw [UniqueId.isValid, UniqueId.isUsed, ← SortedMap.contains_iff]
  simp [and_assoc]

/-- The id of a live thread is valid. -/
theorem Accounted.isValid_of_live (accounted : Accounted s) {thread : Thread}
    (found : s.uthreads tid = some thread) : s.tids.isValid tid = true := by
  rw [← Bool.not_eq_false, isValid_eq_false]
  rintro ⟨-, -, unused⟩
  rw [((accounted.pool tid).mp unused).2.2] at found
  cases found

theorem Accounted.positive (accounted : Accounted s) : ∀ id ∈ s.tids.unusedIds.keys, 0 < id :=
  fun id unused => ((accounted.pool id).mp unused).1

theorem spawned_find {id i : Int} {thread : Thread} (dead : s.uthreads id = none) :
    (s.spawned id).uthreads i = some thread ↔
      (i = id ∧ thread = .new s.nextStack) ∨ s.uthreads i = some thread := by
  by_cases same : i = id
  · subst same
    simp [s.spawned_self, dead, eq_comm]
  · simp [s.spawned_of_ne same, same]

theorem awake_spawned {id i : Int} (dead : s.uthreads id = none) :
    (s.spawned id).Awake i ↔ i = id ∨ s.Awake i := by
  simp only [State.Awake, spawned_find dead]
  constructor
  · rintro ⟨thread, ⟨rfl, -⟩ | found, unblocked⟩
    · exact .inl rfl
    · exact .inr ⟨thread, found, unblocked⟩
  · rintro (rfl | ⟨thread, found, unblocked⟩)
    · exact ⟨_, .inl ⟨rfl, rfl⟩, rfl, rfl⟩
    · exact ⟨thread, .inr found, unblocked⟩

/-- A new thread waits for nobody and nobody waits for it. -/
theorem Synced.spawned (synced : Synced s) {id : Int} (dead : s.uthreads id = none) :
    Synced (s.spawned id) where
  waiting := by
    intro u thread i found member
    rcases (spawned_find dead).mp found with ⟨-, rfl⟩ | found
    · exact absurd member List.not_mem_nil
    · obtain ⟨other, dependent, isLive, waits⟩ := synced.waiting u thread i found member
      exact ⟨other, dependent, (spawned_find dead).mpr (.inr isLive), waits⟩
  listed := by
    intro i thread found waits
    rcases (spawned_find dead).mp found with ⟨-, rfl⟩ | found
    · cases waits
    · obtain ⟨u, lister, isLister, once, only⟩ := synced.listed i thread found waits
      refine ⟨u, lister, (spawned_find dead).mpr (.inr isLister), once, ?_⟩
      intro v other isOther member
      rcases (spawned_find dead).mp isOther with ⟨-, rfl⟩ | isOther
      · exact absurd member List.not_mem_nil
      · exact only v other isOther member

theorem Running.spawned (running : Running s) {id : Int} (unused : id ∈ s.tids.unusedIds.keys) :
    Running (s.spawned id) := by
  obtain ⟨positive, below, dead⟩ := (running.pool id).mp unused
  have live : ∀ i, s.Awake i → i ≠ id := fun i awake same =>
    running.awake_live unused (same ▸ awake)
  have ready : (s.spawned id).ready = s.ready ++ [id] := rfl
  refine ⟨⟨⟨running.maxId, ?_, ?_, ?_, (awake_spawned dead).mpr (.inr running.main), ?_,
    running.synced.spawned dead⟩, ?_⟩, (awake_spawned dead).mpr (.inr running.current)⟩
  · intro i
    change i ∈ (s.tids.unusedIds.erase id).keys ↔ _
    rw [SortedMap.mem_keys_erase, running.pool, Option.eq_none_iff_forall_ne_some,
      Option.eq_none_iff_forall_ne_some]
    simp only [ne_eq, spawned_find dead]
    grind
  · intro i thread found
    rcases (spawned_find dead).mp found with ⟨rfl, -⟩ | found
    · exact ⟨positive.le, below⟩
    · exact running.inRange i thread found
  · intro i thread found
    change thread.stack < s.nextStack + 1
    rcases (spawned_find dead).mp found with ⟨-, rfl⟩ | found
    · exact Nat.lt_succ_self _
    · exact Nat.lt_succ_of_lt (running.allocated i thread found)
  · rw [ready]
    refine List.nodup_append.mpr ⟨running.ready_nodup, List.nodup_singleton _, ?_⟩
    rintro i member j isId rfl
    exact live i ((running.ready_iff i).mp member).2 (List.mem_singleton.mp isId)
  · intro i
    change i ∈ s.ready ++ [id] ↔ i ≠ s.currentThread ∧ _
    rw [awake_spawned dead, List.mem_append, List.mem_singleton, running.ready_iff]
    have other := live s.currentThread running.current
    grind

theorem awake_iff_unblocked {thread : Thread} (found : s.uthreads tid = some thread) :
    s.Awake tid ↔ thread.Unblocked := by
  constructor
  · rintro ⟨thread', found', unblocked⟩
    rw [found, Option.some.injEq] at found'
    exact found' ▸ unblocked
  · exact fun unblocked => ⟨thread, found, unblocked⟩

theorem awake_blocked (thread : Thread) (i : Int) :
    (s.setThread tid (some { thread with blockedDirectly := true })).Awake i ↔
      i ≠ tid ∧ s.Awake i := by
  rw [awake_setThread]
  simp [Thread.Unblocked]

/-- Blocking a thread takes it out of the queue. -/
theorem Running.blocked (running : Running s) {thread : Thread} (notMain : tid ≠ mainThreadId)
    (found : s.uthreads tid = some thread) :
    Settled ((s.setThread tid (some { thread with blockedDirectly := true })).removeReady tid) := by
  have same : SameTies s (s.setThread tid (some { thread with blockedDirectly := true })) :=
    sameTies_setThread found rfl
  refine ⟨running.of_sameTies same rfl rfl (running.ready_nodup.filter _)
    ((awake_blocked thread _).mpr ⟨notMain.symm, running.main⟩), fun i => ?_⟩
  change i ∈ s.ready.filter (· ≠ tid) ↔ i ≠ s.currentThread ∧ (s.setThread tid _).Awake i
  rw [awake_blocked, List.mem_filter, running.ready_iff, decide_eq_true_eq]
  exact ⟨fun ⟨⟨other, awake⟩, rest⟩ => ⟨other, rest, awake⟩,
    fun ⟨other, rest, awake⟩ => ⟨⟨other, awake⟩, rest⟩⟩

/-- The running thread is not in the queue. -/
theorem Running.removeReady_current (running : Running s) (thread : Option Thread) :
    (s.setThread s.currentThread thread).removeReady s.currentThread =
      s.setThread s.currentThread thread := by
  apply State.ext
  case ready =>
    apply List.filter_eq_self.mpr
    intro i member
    simpa using ((running.ready_iff i).mp member).1
  all_goals rfl

/-- A resumed thread that waits for another stays out of the queue. -/
theorem Running.resumed_waiting (running : Running s) {thread : Thread}
    (found : s.uthreads tid = some thread) (waits : thread.syncBlocked = true) :
    Running (s.setThread tid (some { thread with blockedDirectly := false })) := by
  have same : SameTies s (s.setThread tid (some { thread with blockedDirectly := false })) :=
    sameTies_setThread found rfl
  have awake_iff : ∀ i, (s.setThread tid
      (some { thread with blockedDirectly := false })).Awake i ↔ s.Awake i := by
    intro i
    rw [awake_setThread]
    by_cases isTid : i = tid
    · subst isTid
      simp [awake_iff_unblocked found, Thread.Unblocked, waits]
    · simp [isTid]
  refine ⟨⟨running.of_sameTies same rfl rfl running.ready_nodup
    ((awake_iff _).mpr running.main), fun i => ?_⟩, (awake_iff _).mpr running.current⟩
  rw [awake_iff]
  exact running.ready_iff i

/-- A resumed thread joins the queue. -/
theorem Running.resumed (running : Running s) {thread : Thread}
    (found : s.uthreads tid = some thread) (other : tid ≠ s.currentThread)
    (blocked : thread.blockedDirectly = true) (free : thread.syncBlocked = false) :
    Running ((s.setThread tid (some { thread with blockedDirectly := false })).pushReady tid) := by
  have same : SameTies s (s.setThread tid (some { thread with blockedDirectly := false })) :=
    sameTies_setThread found rfl
  have asleep : ¬ s.Awake tid := by
    rw [awake_iff_unblocked found, Thread.Unblocked, blocked]
    simp
  have awake_iff : ∀ i, (s.setThread tid
      (some { thread with blockedDirectly := false })).Awake i ↔ i = tid ∨ s.Awake i := by
    intro i
    rw [awake_setThread]
    by_cases isTid : i = tid
    · simp [isTid, Thread.Unblocked, free]
    · simp [isTid]
  refine ⟨⟨running.of_sameTies same rfl rfl ?_ ((awake_iff _).mpr (.inr running.main)),
    fun i => ?_⟩, (awake_iff _).mpr (.inr running.current)⟩
  · refine List.nodup_append.mpr ⟨running.ready_nodup, List.nodup_singleton _, ?_⟩
    rintro i member j isTid rfl
    exact asleep (List.mem_singleton.mp isTid ▸ ((running.ready_iff i).mp member).2)
  · change i ∈ s.ready ++ [tid] ↔ i ≠ s.currentThread ∧ (s.setThread tid _).Awake i
    rw [awake_iff, List.mem_append, List.mem_singleton, running.ready_iff]
    grind

/-- A thread that waits for another, at either end. -/
def Thread.tied (thread : Thread) (waits : Bool) (dependents : List Int) : Thread :=
  { thread with
    syncBlocked := thread.syncBlocked || waits
    syncDependencies := thread.syncDependencies ++ dependents }

/-- The state in which one thread waits for another. -/
def State.syncedTo (s : State) (waiter target : Int) : State :=
  { s with
    uthreads := fun i => (s.uthreads i).map fun thread =>
      thread.tied (i = waiter) (if i = target then [waiter] else []) }

theorem syncedTo_eq {target : Int} {thread targeted : Thread} (other : target ≠ tid)
    (found : s.uthreads tid = some thread) (isTarget : s.uthreads target = some targeted) :
    (s.setThread tid (some { thread with syncBlocked := true })).setThread target
        (some { targeted with syncDependencies := targeted.syncDependencies ++ [tid] }) =
      s.syncedTo tid target := by
  apply State.ext
  · funext i
    by_cases isTargetId : i = target
    · subst isTargetId
      simp [State.syncedTo, isTarget, Thread.tied, other]
    · by_cases isWaiter : i = tid
      · subst isWaiter
        simp [State.syncedTo, found, Thread.tied, isTargetId]
      · simp [State.syncedTo, Thread.tied, isTargetId, isWaiter]
  all_goals rfl

theorem syncedTo_find {target i : Int} {after : Thread} :
    (s.syncedTo tid target).uthreads i = some after ↔
      ∃ thread, s.uthreads i = some thread ∧
        after = thread.tied (i = tid) (if i = target then [tid] else []) := by
  simp [State.syncedTo, eq_comm]

theorem awake_syncedTo {target : Int} (i : Int) :
    (s.syncedTo tid target).Awake i ↔ i ≠ tid ∧ s.Awake i := by
  simp only [State.Awake, syncedTo_find]
  constructor
  · rintro ⟨_, ⟨thread, found, rfl⟩, free, notWaiting⟩
    simp only [Thread.tied, Bool.or_eq_false_iff, decide_eq_false_iff_not] at notWaiting
    exact ⟨notWaiting.2, thread, found, free, notWaiting.1⟩
  · rintro ⟨different, thread, found, free, notWaiting⟩
    exact ⟨_, ⟨thread, found, rfl⟩, free, by simp [Thread.tied, notWaiting, different]⟩

/-- A thread that did not wait is listed in its target's list alone. -/
theorem Synced.syncedTo (synced : Synced s) {target : Int} {targeted : Thread}
    (awake : s.Awake tid) (other : target ≠ tid) (isTarget : s.uthreads target = some targeted) :
    Synced (s.syncedTo tid target) where
  waiting := by
    intro u after i found member
    obtain ⟨thread, isThread, rfl⟩ := syncedTo_find.mp found
    rcases List.mem_append.mp member with old | new
    · obtain ⟨different, dependent, isLive, waits⟩ := synced.waiting u thread i isThread old
      exact ⟨different, _, syncedTo_find.mpr ⟨dependent, isLive, rfl⟩, by simp [Thread.tied, waits]⟩
    · split_ifs at new with isTargetId
      · obtain rfl := List.mem_singleton.mp new
        obtain ⟨waiter, isLive, -⟩ := awake
        exact ⟨isTargetId ▸ other.symm, _, syncedTo_find.mpr ⟨waiter, isLive, rfl⟩,
          by simp [Thread.tied]⟩
      · exact absurd new List.not_mem_nil
  listed := by
    intro i after found waits
    obtain ⟨thread, isThread, rfl⟩ := syncedTo_find.mp found
    by_cases isWaiter : i = tid
    · subst isWaiter
      have notListed : ∀ u lister, s.uthreads u = some lister → i ∉ lister.syncDependencies :=
        fun u lister isLister => synced.not_mem_of_awake awake isLister
      refine ⟨target, _, syncedTo_find.mpr ⟨targeted, isTarget, rfl⟩, ?_, ?_⟩
      · simp [Thread.tied, List.count_eq_zero_of_not_mem (notListed target targeted isTarget)]
      · intro v after' found' member
        obtain ⟨lister, isLister, rfl⟩ := syncedTo_find.mp found'
        by_contra notTarget
        simp only [Thread.tied, notTarget, if_false, List.append_nil] at member
        exact notListed v lister isLister member
    · have waitsBefore : thread.syncBlocked = true := by simpa [Thread.tied, isWaiter] using waits
      obtain ⟨u, lister, isLister, once, only⟩ := synced.listed i thread isThread waitsBefore
      have rest : i ∉ [tid] := fun member => isWaiter (List.mem_singleton.mp member)
      refine ⟨u, _, syncedTo_find.mpr ⟨lister, isLister, rfl⟩, ?_, ?_⟩
      · simp only [Thread.tied, List.count_append, once]
        split_ifs
        · rw [List.count_eq_zero_of_not_mem rest]
        · rw [List.count_nil]
      · intro v after' found' member
        obtain ⟨lister', isLister', rfl⟩ := syncedTo_find.mp found'
        rcases List.mem_append.mp member with old | new
        · exact only v lister' isLister' old
        · split_ifs at new
          · exact absurd new rest
          · exact absurd new List.not_mem_nil

/-- The running thread waits for another. -/
theorem Running.syncedTo (running : Running s) {target : Int} {targeted : Thread}
    (notMain : s.currentThread ≠ mainThreadId) (other : target ≠ s.currentThread)
    (isTarget : s.uthreads target = some targeted) :
    Settled (s.syncedTo s.currentThread target) ∧
      ¬ (s.syncedTo s.currentThread target).Awake s.currentThread := by
  refine ⟨⟨⟨running.maxId, ?_, ?_, ?_, ?_, running.ready_nodup,
    running.synced.syncedTo running.current other isTarget⟩, fun i => ?_⟩,
    fun awake => ((awake_syncedTo _).mp awake).1 rfl⟩
  · intro i
    simp only [State.syncedTo, Option.map_eq_none_iff]
    exact running.pool i
  · intro i after found
    obtain ⟨thread, isThread, -⟩ := syncedTo_find.mp found
    exact running.inRange i thread isThread
  · intro i after found
    obtain ⟨thread, isThread, rfl⟩ := syncedTo_find.mp found
    exact running.allocated i thread isThread
  · exact (awake_syncedTo _).mpr ⟨notMain.symm, running.main⟩
  · change i ∈ s.ready ↔ i ≠ s.currentThread ∧ _
    rw [awake_syncedTo, running.ready_iff]
    exact ⟨fun ⟨different, awake⟩ => ⟨different, different, awake⟩,
      fun ⟨different, _, awake⟩ => ⟨different, awake⟩⟩

/-! ## Termination -/

theorem released_find {thread : Thread} {i : Int} {after : Thread} :
    (s.released tid thread).uthreads i = some after ↔ ∃ before, s.uthreads i = some before ∧
      after = if i ∈ thread.syncDependencies then before.wake else before := by
  by_cases member : i ∈ thread.syncDependencies
  · simp [State.released, State.wakeAll, member, eq_comm]
  · simp [State.released, State.wakeAll, member]

theorem mem_pool_released (thread : Thread) {i : Int} :
    i ∈ (s.released tid thread).tids.unusedIds.keys ↔ i = tid ∨ i ∈ s.tids.unusedIds.keys :=
  SortedMap.mem_keys_insert

theorem released_live {thread thread' : Thread} {i : Int} (found : s.uthreads i = some thread') :
    ∃ after, (s.released tid thread).uthreads i = some after :=
  ⟨_, released_find.mpr ⟨thread', found, rfl⟩⟩

/-- The state after the termination of a thread. -/
def State.terminated (s : State) (tid : Int) (thread : Thread) : State :=
  (s.released tid thread).deleteThread tid

theorem terminated_find {thread : Thread} {i : Int} {after : Thread} :
    (s.terminated tid thread).uthreads i = some after ↔ i ≠ tid ∧ ∃ before,
      s.uthreads i = some before ∧
        after = if i ∈ thread.syncDependencies then before.wake else before := by
  rw [← @released_find s tid, State.terminated, deleteThread_find]

theorem awake_terminated {thread : Thread} {i : Int} :
    (s.terminated tid thread).Awake i ↔ i ≠ tid ∧ ∃ before, s.uthreads i = some before ∧
      before.blockedDirectly = false ∧
      (i ∈ thread.syncDependencies ∨ before.syncBlocked = false) := by
  simp only [State.Awake, terminated_find]
  constructor
  · rintro ⟨_, ⟨different, before, found, rfl⟩, free, notWaiting⟩
    refine ⟨different, before, found, ?_⟩
    split_ifs at free notWaiting with member
    · exact ⟨free, .inl member⟩
    · exact ⟨free, .inr notWaiting⟩
  · rintro ⟨different, before, found, free, waits⟩
    refine ⟨_, ⟨different, before, found, rfl⟩, ?_⟩
    split_ifs with member
    · exact ⟨free, rfl⟩
    · exact ⟨free, waits.resolve_left member⟩

/-- The dependents of a terminated thread stop waiting; the lists of the other
threads stay right when the terminated thread did not wait itself. -/
theorem Synced.terminated (synced : Synced s) {thread : Thread}
    (found : s.uthreads tid = some thread) (notWaiting : thread.syncBlocked = false) :
    Synced (s.terminated tid thread) := by
  have elsewhere : ∀ u lister i, s.uthreads u = some lister → i ∈ lister.syncDependencies →
      u ≠ tid → i ∉ thread.syncDependencies := by
    intro u lister i isLister member different listedHere
    obtain ⟨-, dependent, isLive, waits⟩ := synced.waiting tid thread i found listedHere
    obtain ⟨v, -, -, -, only⟩ := synced.listed i dependent isLive waits
    exact different ((only u lister isLister member).trans (only tid thread found listedHere).symm)
  have lists : ∀ before : Thread, ∀ i, (if i ∈ thread.syncDependencies then before.wake
      else before).syncDependencies = before.syncDependencies := by
    intro before i
    split_ifs <;> rfl
  constructor
  · intro u after i isAfter member
    obtain ⟨different, lister, isLister, rfl⟩ := terminated_find.mp isAfter
    rw [lists] at member
    obtain ⟨other, dependent, isLive, waits⟩ := synced.waiting u lister i isLister member
    have notTid : i ≠ tid := by
      rintro rfl
      rw [found, Option.some.injEq] at isLive
      rw [← isLive, notWaiting] at waits
      cases waits
    have notDependent := elsewhere u lister i isLister member different
    exact ⟨other, dependent, terminated_find.mpr ⟨notTid, dependent, isLive,
      (if_neg notDependent).symm⟩, waits⟩
  · intro i after isAfter waits
    obtain ⟨different, before, isBefore, rfl⟩ := terminated_find.mp isAfter
    split_ifs at waits with dependent
    · cases waits
    · obtain ⟨u, lister, isLister, once, only⟩ := synced.listed i before isBefore waits
      have notTid : u ≠ tid := by
        rintro rfl
        rw [found, Option.some.injEq] at isLister
        subst isLister
        exact dependent (List.count_pos_iff.mp (by omega))
      refine ⟨u, _, terminated_find.mpr ⟨notTid, lister, isLister, rfl⟩, by rw [lists, once], ?_⟩
      intro v after' isAfter' member
      obtain ⟨-, lister', isLister', rfl⟩ := terminated_find.mp isAfter'
      rw [lists] at member
      exact only v lister' isLister' member

theorem Running.terminated (running : Running s) {thread : Thread} (notMain : tid ≠ mainThreadId)
    (found : s.uthreads tid = some thread) (notWaiting : thread.syncBlocked = false) :
    Settled (s.terminated tid thread) := by
  have inRange := running.inRange tid thread found
  have ready : (s.terminated tid thread).ready =
      s.ready.filter (· ≠ tid) ++ s.awakened thread.syncDependencies := rfl
  have mem_awakened : ∀ i, i ∈ s.awakened thread.syncDependencies ↔
      i ∈ thread.syncDependencies ∧ ∃ before, s.uthreads i = some before ∧
        before.blockedDirectly = false := by
    intro i
    rw [State.awakened, List.mem_filter, decide_eq_true_eq, Option.map_eq_some_iff]
  have notListed : ∀ i, s.Awake i → i ∉ thread.syncDependencies :=
    fun i awake => running.synced.not_mem_of_awake awake found
  have main : (s.terminated tid thread).Awake mainThreadId := by
    obtain ⟨before, isMain, free, waits⟩ := running.main
    exact awake_terminated.mpr ⟨notMain.symm, before, isMain, free, .inr waits⟩
  refine ⟨⟨running.maxId, ?_, ?_, ?_, main, ?_, running.synced.terminated found notWaiting⟩, ?_⟩
  · intro i
    change i ∈ (s.tids.unusedIds.insert tid ()).keys ↔ _
    rw [SortedMap.mem_keys_insert, running.pool, Option.eq_none_iff_forall_ne_some,
      Option.eq_none_iff_forall_ne_some]
    simp only [ne_eq, terminated_find]
    have positive : tid ≠ 0 := notMain
    grind
  · intro i after isAfter
    obtain ⟨-, before, isBefore, -⟩ := terminated_find.mp isAfter
    exact running.inRange i before isBefore
  · intro i after isAfter
    obtain ⟨-, before, isBefore, rfl⟩ := terminated_find.mp isAfter
    have fresh := running.allocated i before isBefore
    split_ifs <;> exact fresh
  · rw [ready]
    refine List.nodup_append.mpr ⟨running.ready_nodup.filter _,
      (running.synced.dependents_nodup found).filter _, ?_⟩
    rintro i member j isDependent rfl
    have awake := ((running.ready_iff i).mp (List.mem_of_mem_filter member)).2
    exact notListed i awake ((mem_awakened i).mp isDependent).1
  · intro i
    change _ ↔ i ≠ s.currentThread ∧ _
    rw [ready, List.mem_append, List.mem_filter, decide_eq_true_eq, mem_awakened,
      running.ready_iff, awake_terminated]
    constructor
    · rintro (⟨⟨other, before, isBefore, free, waits⟩, different⟩ |
        ⟨member, before, isBefore, free⟩)
      · exact ⟨other, different, before, isBefore, free, .inr waits⟩
      · refine ⟨?_, ?_, before, isBefore, free, .inl member⟩
        · rintro rfl
          exact notListed _ running.current member
        · exact (running.synced.waiting tid thread i found member).1
    · rintro ⟨other, different, before, isBefore, free, member | waits⟩
      · exact .inr ⟨member, before, isBefore, free⟩
      · exact .inl ⟨⟨other, before, isBefore, free, waits⟩, different⟩

/-! ## Steps and runs -/

/-- A step does not terminate a live thread that waits for another. -/
def SparesWaiting (s : State) : Event → Prop
  | .call (.terminate tid) => ∀ thread, s.uthreads tid = some thread → thread.syncBlocked = false
  | _ => True

/-- What the library's data look like after a call, by how it ends. -/
def After (t : State) : Ending → Prop
  | .returned _ _ => Running t
  | .switching signum => signum ≠ .sigvtalrm ∧ Idle (t.leave signum) ∧
      ∃ thread, t.uthreads t.currentThread = some thread
  | .exited _ => True

theorem Running.call (running : Running s) {call : Call} (spares : SparesWaiting s (.call call))
    (run : call.run s = some (t, ending)) : After t ending := by
  cases call with
  | spawn =>
      rcases uthreadSpawn_cases running.positive (Option.some.inj run) with
        ⟨-, rfl, rfl⟩ | ⟨id, unused, -, rfl, rfl⟩
      · exact running
      · exact running.spawned unused
  | terminate tid =>
      rcases uthreadTerminate_cases run with ⟨-, rfl, rfl⟩ | ⟨-, rfl⟩ |
        ⟨-, notMain, thread, found, -, ⟨isCurrent, rfl, rfl⟩ | ⟨other, rfl, rfl⟩⟩
      · exact running
      · trivial
      · have settled := running.terminated notMain found (spares thread found)
        subst isCurrent
        refine ⟨by decide, settled.idle fun awake => (awake_terminated.mp awake).1 rfl, ?_⟩
        exact released_live found
      · refine ⟨running.terminated notMain found (spares thread found), ?_⟩
        obtain ⟨current, isCurrent, free, waits⟩ := running.current
        exact awake_terminated.mpr ⟨other, current, isCurrent, free, .inr waits⟩
  | block tid =>
      rcases uthreadBlock_cases run with ⟨rfl, ⟨_, _, rfl⟩, -⟩ |
        ⟨notMain, thread, found, ⟨isCurrent, rfl, rfl⟩ | ⟨other, -, rfl, rfl⟩⟩
      · exact running
      · subst isCurrent
        have settled := running.blocked notMain found
        rw [running.removeReady_current] at settled
        exact ⟨by decide, settled.idle fun awake => ((awake_blocked thread _).mp awake).1 rfl,
          _, State.setThread_self ..⟩
      · exact ⟨running.blocked notMain found,
          (awake_blocked thread _).mpr ⟨other, running.current⟩⟩
  | resume tid =>
      obtain ⟨⟨_, _, rfl⟩, rfl | ⟨other, thread, found, blocked,
        ⟨waits, rfl⟩ | ⟨free, rfl⟩⟩⟩ := uthreadResume_cases run
      · exact running
      · exact running.resumed_waiting found waits
      · exact running.resumed found other blocked free
  | sync tid =>
      rcases uthreadSync_cases run with ⟨rfl, rfl⟩ |
        ⟨notMain, other, thread, target, found, isTarget, rfl, rfl⟩
      · exact running
      · rw [syncedTo_eq other found isTarget]
        obtain ⟨settled, asleep⟩ := running.syncedTo notMain other isTarget
        exact ⟨by decide, settled.idle asleep, _, syncedTo_find.mpr ⟨thread, found, rfl⟩⟩

theorem Running.next (running : Running s) {event : Event} (spares : SparesWaiting s event)
    (step : s.next event = some t) : Running t := by
  cases event with
  | call call =>
      rcases next_call_cases step with ⟨_, _, run⟩ | ⟨u, signum, run, switched⟩
      · exact running.call spares run
      · exact (running.call spares run).2.1.dispatch switched
  | timer => exact running.leave_timer.dispatch step

/-- The id of a thread terminated while it waits stays in a live thread's
list. -/
theorem Running.orphan (running : Running s) {event : Event} (kills : ¬ SparesWaiting s event)
    (step : s.next event = some t) : ¬ t.Represented := by
  cases event with
  | timer => exact absurd trivial kills
  | call call =>
      cases call with
      | terminate tid =>
          simp only [SparesWaiting, not_forall, Bool.not_eq_false] at kills
          obtain ⟨thread, found, waits⟩ := kills
          obtain ⟨u, lister, isLister, once, -⟩ := running.synced.listed tid thread found waits
          have member : tid ∈ lister.syncDependencies := List.count_pos_iff.mp (by omega)
          have different := (running.synced.waiting u lister tid isLister member).1
          have asleep : ¬ s.Awake tid := by
            rw [awake_iff_unblocked found, Thread.Unblocked, waits]
            simp
          intro represented
          -- The call can only have ended by removing the thread.
          have removed : ∀ thread', s.uthreads tid = some thread' →
              ¬ (s.terminated tid thread').Represented := by
            intro thread' found' represented
            obtain ⟨⟨dependent, isLive, -⟩, -⟩ := represented.dependency u _ tid
              (terminated_find.mpr ⟨Ne.symm different, lister, isLister, rfl⟩)
              (by split_ifs <;> exact member)
            exact (terminated_find.mp isLive).1 rfl
          rcases next_call_cases step with ⟨_, _, run⟩ | ⟨u', signum, run, -⟩
          · rcases uthreadTerminate_cases run with ⟨invalid, -, -⟩ | ⟨-, impossible⟩ |
              ⟨-, -, thread', found', -, ⟨-, -, impossible⟩ | ⟨-, rfl, -⟩⟩
            · rw [running.isValid_of_live found] at invalid
              cases invalid
            · cases impossible
            · cases impossible
            · exact removed thread' found' represented
          · rcases uthreadTerminate_cases run with ⟨-, -, impossible⟩ | ⟨-, impossible⟩ |
              ⟨-, -, thread', found', -, ⟨isCurrent, -, -⟩ | ⟨-, -, impossible⟩⟩
            · cases impossible
            · cases impossible
            · exact asleep (isCurrent ▸ running.current)
            · cases impossible
      | spawn => exact absurd trivial kills
      | block tid => exact absurd trivial kills
      | resume tid => exact absurd trivial kills
      | sync tid => exact absurd trivial kills

theorem mem_unusedIds_new (id : Int) :
    id ∈ (UniqueId.new maxThreadNum).unusedIds.keys ↔ 0 < id ∧ id < maxThreadNum := by
  have added : ∀ (numbers : List Nat) (ids : SortedMap Int Unit),
      id ∈ (numbers.foldl (fun ids i => ids.insert (i : Int) ()) ids).keys ↔
        (∃ i ∈ numbers, id = i) ∨ id ∈ ids.keys := by
    intro numbers
    induction numbers with
    | nil => simp
    | cons i numbers ih =>
        intro ids
        rw [List.foldl_cons, ih, SortedMap.mem_keys_insert]
        simp only [List.mem_cons]
        grind
  rw [UniqueId.new]
  dsimp only
  rw [added]
  simp only [List.mem_range'_1, SortedMap.keys_empty, List.not_mem_nil, or_false, maxThreadNum]
  constructor
  · rintro ⟨i, bounds, rfl⟩
    omega
  · intro bounds
    exact ⟨id.toNat, by omega, by omega⟩

theorem running_init : Running uthreadInit := by
  have found_iff : ∀ i thread, uthreadInit.uthreads i = some thread ↔
      i = mainThreadId ∧ thread = { Thread.new 0 with quantums := 1 } := by
    intro i thread
    by_cases same : i = mainThreadId
    · simp [uthreadInit, same, eq_comm]
    · simp [uthreadInit, same]
  have awake_iff : ∀ i, uthreadInit.Awake i ↔ i = mainThreadId := by
    intro i
    simp only [State.Awake, found_iff]
    constructor
    · rintro ⟨_, ⟨isMain, -⟩, -⟩
      exact isMain
    · intro isMain
      exact ⟨_, ⟨isMain, rfl⟩, rfl, rfl⟩
  refine ⟨⟨⟨rfl, ?_, ?_, ?_, (awake_iff _).mpr rfl, List.nodup_nil, ?_, ?_⟩, ?_⟩,
    (awake_iff _).mpr rfl⟩
  · intro i
    change i ∈ (UniqueId.new maxThreadNum).unusedIds.keys ↔ _
    rw [mem_unusedIds_new, Option.eq_none_iff_forall_ne_some]
    simp only [ne_eq, found_iff, mainThreadId, maxThreadNum]
    grind
  · intro i thread found
    rw [((found_iff i thread).mp found).1]
    decide
  · intro i thread found
    rw [((found_iff i thread).mp found).2]
    decide
  · intro u thread i found member
    rw [((found_iff u thread).mp found).2] at member
    exact absurd member List.not_mem_nil
  · intro i thread found waits
    rw [((found_iff i thread).mp found).2] at waits
    cases waits
  · intro i
    rw [awake_iff]
    exact ⟨fun member => absurd member List.not_mem_nil, fun ⟨other, same⟩ => absurd same other⟩

/-- **The scheduler's representation.** In a run of calls and timer switches the
representation holds in every state exactly when no step terminates a live
thread that waits for another. -/
theorem represented_iff {events : List Event}
    (run : exec State.next uthreadInit events = some t) :
    HoldsAlong State.next State.Represented uthreadInit events ↔
      StepsMeet State.next SparesWaiting uthreadInit events :=
  exec_holds_iff (fun _ running => Running.represented running)
    (fun _ _ _ running spares step => Running.next running spares step)
    (fun _ _ _ running kills step => Running.orphan running kills step) running_init run

theorem represented_iff_sync :
    HoldsAlong State.next State.Represented uthreadInit
      [.call .spawn, .call .spawn, .timer, .call (.sync 2)] := by
  obtain ⟨t, run⟩ : ∃ t, exec State.next uthreadInit
      [.call .spawn, .call .spawn, .timer, .call (.sync 2)] = some t :=
    Option.isSome_iff_exists.mp (by decide +kernel)
  refine (represented_iff run).mpr (stepsMeet_of_forall ?_ _)
  simp [SparesWaiting]

/-- Thread 1 waits for thread 2 when the main thread terminates it. -/
def orphanEvents : List Event :=
  [.call .spawn, .call .spawn, .timer, .call (.sync 2), .timer, .call (.terminate 1)]

theorem terminated_waiter_stays_listed : ∃ t thread,
    exec State.next uthreadInit orphanEvents = some t ∧ t.uthreads 2 = some thread ∧
      1 ∈ thread.syncDependencies ∧ t.uthreads 1 = none ∧ ¬ t.Represented := by
  have result : (exec State.next uthreadInit orphanEvents).map
      (fun t => (t.uthreads 2, t.uthreads 1)) =
        some (some ⟨false, false, 1, [1], 2⟩, none) := by decide +kernel
  obtain ⟨t, run, threads⟩ := Option.map_eq_some_iff.mp result
  obtain ⟨found, gone⟩ := Prod.ext_iff.mp threads
  refine ⟨t, _, run, found, List.mem_singleton_self 1, gone, fun represented => ?_⟩
  obtain ⟨⟨dependent, isLive, -⟩, -⟩ :=
    represented.dependency 2 _ 1 found (List.mem_singleton_self 1)
  exact Option.some_ne_none dependent (isLive.symm.trans gone)

end Os2018.Uthreads
