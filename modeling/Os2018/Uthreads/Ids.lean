import Os2018.Uthreads.Contexts

/-!
# Ids of no thread

An id is out of use when it has never been given to a thread or its thread has
been terminated, and such an id is in the pool. That holds in every state of
every run, with signals at any statement (`pooled_of_reachable`): a thread that
terminates itself puts its id into the pool at once, loses its entry of
`uthreads` only when `switch_threads` has saved its context, and may be
interrupted, queued and resumed in between.

The functions of the interface ask the pool whether an id is valid, and the
answer for an id out of range is yes. An id of no thread is rejected without
effect exactly if it is in range (`rejects_iff`).
-/

set_option autoImplicit false

namespace Os2018.Uthreads

open Transition

variable {m n : Machine} {s t : State} {tid : Int} {ending : Ending}

/-! ## Statement -/

/-- There is no thread with the id, or it has been terminated. -/
def State.NoThread (s : State) (tid : Int) : Prop :=
  s.uthreads tid = none ∨ tid ∈ s.tids.unusedIds.keys

/-- The calls that take an id. -/
def idCalls (tid : Int) : List Call := [.terminate tid, .block tid, .resume tid, .sync tid]

/-- The functions return -1 and change nothing, whatever `uthreads` holds: they
look at no entry of it. -/
structure Rejects (s : State) (tid : Int) : Prop where
  calls : ∀ call ∈ idCalls tid, ∃ masked, ∀ uthreads,
    call.run { s with uthreads } = some ({ s with uthreads }, .returned (-1) masked)
  getQuantums : ∀ uthreads, uthreadGetQuantums { s with uthreads } tid = some (-1)

/-! ## The pool and the table -/

/-- Ids of threads are in range, and an id in range without an entry is in the
pool. An id may be in the pool while its entry is still there. -/
structure IdsFit (s : State) : Prop where
  maxId : s.tids.maxId = maxThreadNum
  pool : ∀ id ∈ s.tids.unusedIds.keys, 0 < id ∧ id < maxThreadNum
  outside : ∀ id, ¬ (0 ≤ id ∧ id < maxThreadNum) → s.uthreads id = none
  inside : ∀ id, 0 ≤ id → id < maxThreadNum → s.uthreads id = none →
    id ∈ s.tids.unusedIds.keys

theorem idsFit_init : IdsFit uthreadInit where
  maxId := rfl
  pool := fun id unused => (mem_unusedIds_new id).mp unused
  outside := by
    intro id outside
    have notMain : id ≠ mainThreadId := by
      rintro rfl
      exact outside ⟨by decide, by decide⟩
    simp [uthreadInit, notMain]
  inside := by
    intro id nonneg below noEntry
    have notMain : id ≠ mainThreadId := by
      rintro rfl
      simp [uthreadInit] at noEntry
    exact (mem_unusedIds_new id).mpr ⟨lt_of_le_of_ne nonneg (Ne.symm notMain), below⟩

theorem IdsFit.positive (fit : IdsFit s) : ∀ id ∈ s.tids.unusedIds.keys, 0 < id :=
  fun id unused => (fit.pool id unused).1

/-- Entries change, but none comes or goes. -/
theorem IdsFit.of_same (fit : IdsFit s) (tids : t.tids = s.tids)
    (same : ∀ id, t.uthreads id = none ↔ s.uthreads id = none) : IdsFit t where
  maxId := tids ▸ fit.maxId
  pool := tids ▸ fit.pool
  outside := fun id outside => (same id).mpr (fit.outside id outside)
  inside := by
    intro id nonneg below noEntry
    rw [tids]
    exact fit.inside id nonneg below ((same id).mp noEntry)

theorem setThread_eq_none {thread thread' : Thread} (found : s.uthreads tid = some thread)
    (id : Int) : (s.setThread tid (some thread')).uthreads id = none ↔ s.uthreads id = none := by
  by_cases same : id = tid
  · subst same
    simp [found]
  · rw [State.setThread_of_ne _ _ _ same]

theorem released_eq_none {thread : Thread} (id : Int) :
    (s.released tid thread).uthreads id = none ↔ s.uthreads id = none := by
  rw [State.released, State.wakeAll]
  dsimp only
  split_ifs
  · exact Option.map_eq_none_iff
  · exact Iff.rfl

theorem IdsFit.live_inRange (fit : IdsFit s) {thread : Thread}
    (found : s.uthreads tid = some thread) : 0 ≤ tid ∧ tid < maxThreadNum := by
  by_contra outside
  cases found.symm.trans (fit.outside tid outside)

theorem IdsFit.spawned (fit : IdsFit s) {id : Int} (unused : id ∈ s.tids.unusedIds.keys) :
    IdsFit (s.spawned id) where
  maxId := fit.maxId
  pool := fun other member => fit.pool other (SortedMap.mem_keys_erase.mp member).2
  outside := by
    intro other outside
    have different : other ≠ id := by
      rintro rfl
      exact outside ⟨le_of_lt (fit.pool other unused).1, (fit.pool other unused).2⟩
    exact (s.spawned_of_ne different).trans (fit.outside other outside)
  inside := by
    intro other nonneg below noEntry
    have different : other ≠ id := by
      rintro rfl
      cases (s.spawned_self other).symm.trans noEntry
    have unchanged : s.uthreads other = none := (s.spawned_of_ne different).symm.trans noEntry
    exact SortedMap.mem_keys_erase.mpr ⟨different, fit.inside other nonneg below unchanged⟩

/-- The id of a thread other than the main one goes into the pool. -/
theorem IdsFit.released (fit : IdsFit s) {thread : Thread} (notMain : tid ≠ mainThreadId)
    (found : s.uthreads tid = some thread) : IdsFit (s.released tid thread) where
  maxId := fit.maxId
  pool := by
    intro id member
    rcases (mem_pool_released thread).mp member with rfl | old
    · obtain ⟨nonneg, below⟩ := fit.live_inRange found
      exact ⟨lt_of_le_of_ne nonneg (Ne.symm notMain), below⟩
    · exact fit.pool id old
  outside := fun id outside => (released_eq_none id).mpr (fit.outside id outside)
  inside := by
    intro id nonneg below noEntry
    exact (mem_pool_released thread).mpr
      (.inr (fit.inside id nonneg below ((released_eq_none id).mp noEntry)))

/-- An entry whose id is in the pool goes. -/
theorem IdsFit.deleteThread (fit : IdsFit s) (unused : tid ∈ s.tids.unusedIds.keys) :
    IdsFit (s.deleteThread tid) where
  maxId := fit.maxId
  pool := fit.pool
  outside := by
    intro id outside
    by_cases same : id = tid
    · rw [same, State.deleteThread, State.setThread_self]
    · rw [State.deleteThread, State.setThread_of_ne _ _ _ same]
      exact fit.outside id outside
  inside := by
    intro id nonneg below noEntry
    by_cases same : id = tid
    · exact same ▸ unused
    · rw [State.deleteThread, State.setThread_of_ne _ _ _ same] at noEntry
      exact fit.inside id nonneg below noEntry

/-- The current thread's entry goes only with its id in the pool. -/
theorem IdsFit.leave (fit : IdsFit s) {signum : Signum}
    (pooled : signum = .terminateSwitch → s.currentThread ∈ s.tids.unusedIds.keys) :
    IdsFit (s.leave signum) := by
  cases signum with
  | sigvtalrm => exact fit.of_same rfl fun _ => Iff.rfl
  | terminateSwitch => exact fit.deleteThread (pooled rfl)
  | blockSwitch => exact fit

theorem IdsFit.dispatch (fit : IdsFit s) (picked : s.dispatch = some t) :
    IdsFit t ∧ t.tids = s.tids := by
  obtain ⟨next, ready, thread, -, found, rfl⟩ := dispatch_cases picked
  exact ⟨fit.of_same rfl (setThread_eq_none found), rfl⟩

/-! ## Calls -/

/-- A call that does not leave the process: what it does to the pool. Only
`uthread_spawn` takes an id from it. -/
structure Served (s t : State) (call : Call) (ending : Ending) : Prop where
  fit : IdsFit t
  currentThread : t.currentThread = s.currentThread
  pool : ∀ id ∈ s.tids.unusedIds.keys,
    id ∈ t.tids.unusedIds.keys ∨ call = .spawn ∧ ending = .returned id false
  dying : ending = .switching .terminateSwitch → s.currentThread ∈ t.tids.unusedIds.keys

/-- A call that keeps the pool and which entries there are. -/
theorem IdsFit.served (fit : IdsFit s) {call : Call} (tids : t.tids = s.tids)
    (currentThread : t.currentThread = s.currentThread)
    (same : ∀ id, t.uthreads id = none ↔ s.uthreads id = none)
    (stays : ending ≠ .switching .terminateSwitch) : Served s t call ending where
  fit := fit.of_same tids same
  currentThread := currentThread
  pool := fun _ unused => .inl (tids ▸ unused)
  dying := fun terminates => absurd terminates stays

theorem IdsFit.call (fit : IdsFit s) {call : Call} (run : call.run s = some (t, ending))
    (stays : ∀ code, ending ≠ .exited code) : Served s t call ending := by
  cases call with
  | spawn =>
      rcases uthreadSpawn_cases fit.positive (Option.some.inj run) with
        ⟨-, rfl, rfl⟩ | ⟨id, unused, -, rfl, rfl⟩
      · exact fit.served rfl rfl (fun _ => Iff.rfl) nofun
      · refine ⟨fit.spawned unused, rfl, ?_, nofun⟩
        intro other member
        by_cases same : other = id
        · exact .inr ⟨rfl, by rw [same]⟩
        · exact .inl (SortedMap.mem_keys_erase.mpr ⟨same, member⟩)
  | terminate tid =>
      have kept : ∀ thread, ∀ id ∈ s.tids.unusedIds.keys,
          id ∈ (s.released tid thread).tids.unusedIds.keys :=
        fun thread id unused => (mem_pool_released thread).mpr (.inr unused)
      rcases uthreadTerminate_cases run with ⟨-, rfl, rfl⟩ | ⟨-, ending⟩ |
        ⟨-, notMain, thread, found, -, ⟨isCurrent, rfl, rfl⟩ | ⟨-, rfl, rfl⟩⟩
      · exact fit.served rfl rfl (fun _ => Iff.rfl) nofun
      · exact absurd ending (stays 0)
      · refine ⟨fit.released notMain found, rfl, fun id unused => .inl (kept thread id unused), ?_⟩
        rintro -
        rw [isCurrent]
        exact (mem_pool_released thread).mpr (.inl rfl)
      · have pooled : tid ∈ (s.released tid thread).tids.unusedIds.keys :=
          (mem_pool_released thread).mpr (.inl rfl)
        exact ⟨(fit.released notMain found).deleteThread pooled, rfl,
          fun id unused => .inl (kept thread id unused), nofun⟩
  | block tid =>
      rcases uthreadBlock_cases run with ⟨rfl, ⟨_, _, rfl⟩, -⟩ |
        ⟨-, thread, found, ⟨-, rfl, rfl⟩ | ⟨-, -, rfl, rfl⟩⟩
      · exact fit.served rfl rfl (fun _ => Iff.rfl) nofun
      · exact fit.served rfl rfl (setThread_eq_none found) nofun
      · exact fit.served rfl rfl (setThread_eq_none found) nofun
  | resume tid =>
      obtain ⟨⟨_, _, rfl⟩, rfl | ⟨-, thread, found, -, ⟨-, rfl⟩ | ⟨-, rfl⟩⟩⟩ :=
        uthreadResume_cases run
      · exact fit.served rfl rfl (fun _ => Iff.rfl) nofun
      · exact fit.served rfl rfl (setThread_eq_none found) nofun
      · exact fit.served rfl rfl (setThread_eq_none found) nofun
  | sync tid =>
      rcases uthreadSync_cases run with ⟨rfl, rfl⟩ |
        ⟨-, other, thread, target, found, isTarget, rfl, rfl⟩
      · exact fit.served rfl rfl (fun _ => Iff.rfl) nofun
      · rw [syncedTo_eq other found isTarget]
        refine fit.served rfl rfl ?_ nofun
        intro id
        exact Option.map_eq_none_iff

/-! ## Terminations in progress -/

/-- A termination that has not deleted its thread. -/
def Frame.Dying (frame : Frame) : Prop := frame.signum = .terminateSwitch ∧ frame.point.Early

/-- A termination that will go on: the calls above it return to it, and none of
them jumps away. -/
def Terminating : List Frame → Prop
  | [] => False
  | frame :: rest => frame.Dying ∨ ¬ frame.point.Leaving ∧ Terminating rest

theorem Terminating.move {frame frame' : Frame} {rest : List Frame}
    (terminating : Terminating (frame' :: rest)) (dying : frame'.Dying → frame.Dying)
    (here : ¬ frame.point.Leaving) : Terminating (frame :: rest) :=
  terminating.imp dying fun below => ⟨here, below.2⟩

/-- A call that is about to jump does not return to those below it. -/
theorem not_terminating_of_leaving {frame : Frame} {rest : List Frame}
    (leaving : frame.point.Leaving) : ¬ Terminating (frame :: rest) := by
  rintro (⟨-, early⟩ | ⟨here, -⟩)
  · exact early.not_leaving leaving
  · exact here leaving

/-- The thread that executes, or is to go on from a context, and is terminating
itself has its id in the pool. -/
structure Pooled (m : Machine) : Prop where
  fit : IdsFit m.lib
  current : Terminating m.chain → m.lib.currentThread ∈ m.lib.tids.unusedIds.keys
  contexts : ∀ id context, m.env id = some context → Terminating context.chain →
    id ∈ m.lib.tids.unusedIds.keys

theorem pooled_initial : Pooled initialMachine where
  fit := idsFit_init
  current := False.elim
  contexts := fun _ _ found => by cases found

theorem Pooled.call (pooled : Pooled m) {call : Call} (own : m.chain = [])
    (called : m.call call = some n) : Pooled n := by
  rcases call_cases called with ⟨lib, value, masked, run, rfl⟩ | ⟨lib, signum, run, rfl⟩
  · have served := pooled.fit.call run nofun
    refine ⟨served.fit, ?_, ?_⟩
    · intro terminating
      rw [show m.chain = [] from own] at terminating
      exact terminating.elim
    · intro id context found terminating
      dsimp only at found
      split_ifs at found with spawned
      · by_cases same : id = value
        · rw [same, Function.update_self, Option.some.injEq] at found
          subst found
          exact terminating.elim
        · rw [Function.update_of_ne same] at found
          rcases served.pool id (pooled.contexts id context found terminating) with
            kept | ⟨-, ending⟩
          · exact kept
          · cases ending
            exact absurd rfl same
      · have unused := pooled.contexts id context found terminating
        rcases served.pool id unused with kept | ⟨isSpawn, ending⟩
        · exact kept
        · cases ending
          have positive := (pooled.fit.pool value unused).1
          exact absurd ⟨isSpawn, by omega⟩ spawned
  · have served := pooled.fit.call run nofun
    refine ⟨served.fit, ?_, ?_⟩
    · rintro (dying | ⟨-, below⟩)
      · have terminates : signum = .terminateSwitch := dying.1
        rw [served.currentThread]
        exact served.dying (by rw [terminates])
      · exact below.elim
    · intro id context found terminating
      rcases served.pool id (pooled.contexts id context found terminating) with kept | ⟨-, ending⟩
      · exact kept
      · cases ending

theorem Pooled.tick (pooled : Pooled m) {frame : Frame} {rest : List Frame}
    (chain : m.chain = frame :: rest) (ticked : Ticked m frame rest n) : Pooled n := by
  obtain ⟨fit, current, contexts⟩ := pooled
  rw [chain] at current
  -- A statement before the choice of the next thread.
  have stays : frame.point.Early → ∀ frame' : Frame, frame'.signum = frame.signum →
      Terminating (frame' :: rest) → m.lib.currentThread ∈ m.lib.tids.unusedIds.keys := by
    intro early frame' signum terminating
    refine current (terminating.move (fun dying => ⟨?_, early⟩) early.not_leaving)
    exact signum.symm.trans dying.1
  cases ticked with
  | setIgnore point => exact ⟨fit, stays (.inl point) _ rfl, contexts⟩
  | ignore point => exact ⟨fit, stays (.inr (.inl point)) _ rfl, contexts⟩
  | save point =>
      have early : frame.point.Early := .inr (.inr (.inl point))
      exact ⟨fit, stays early _ rfl, forall_update_env contexts (stays early _ rfl)⟩
  | pick point switched =>
      have left : IdsFit (m.lib.leave frame.signum) := fit.leave fun terminates =>
        current (.inl ⟨terminates, .inr (.inr (.inr point))⟩)
      obtain ⟨picked, tids⟩ := left.dispatch switched
      refine ⟨picked, fun terminating => absurd terminating (not_terminating_of_leaving ?_), ?_⟩
      · exact .inl rfl
      · intro id context found terminating
        rw [tids, leave_tids]
        exact contexts id context found terminating
  | setHandler point | install point | arm point =>
      refine ⟨fit, fun terminating => absurd terminating (not_terminating_of_leaving ?_), contexts⟩
      simp [Point.Leaving]
  | jump point found => exact ⟨fit, contexts _ _ found, contexts⟩
  | resetHandler point | reinstall point | rearm point =>
      refine ⟨fit, fun terminating => current (terminating.move ?_ ?_), contexts⟩
      · rintro ⟨-, early⟩
        simp [Point.Early] at early
      · simp [Point.Leaving, point]
  | leave point =>
      refine ⟨fit, fun terminating => current (.inr ⟨?_, terminating⟩), contexts⟩
      simp [Point.Leaving, point]

/-- A signal starts a call that is not a termination. -/
theorem Pooled.signal (pooled : Pooled m) :
    Pooled { m with mask := true, chain := ⟨.sigvtalrm, .entry⟩ :: m.chain } where
  fit := pooled.fit
  current := by
    rintro (⟨terminates, -⟩ | ⟨-, below⟩)
    · cases terminates
    · exact pooled.current below
  contexts := pooled.contexts

/-- In every state of every run the pool holds the ids in range that have no
thread. -/
theorem pooled_of_reachable (reachable : machine.Reachable m) : Pooled m := by
  refine reachable.invariant (P := Pooled) ?_ ?_
  · rintro _ rfl
    exact pooled_initial
  · intro m event n _ pooled step
    have stepped : m.next event = some n := step
    rcases next_cases stepped with ⟨call, -, own, called⟩ | ⟨-, -, -, rfl⟩ |
      ⟨-, frame, rest, chain, ticked⟩
    · exact pooled.call own called
    · exact pooled.signal
    · exact pooled.tick chain ticked

/-! ## Rejection -/

/-- An id of the pool is rejected before any entry is looked at. -/
theorem rejects_of_invalid (invalid : s.tids.isValid tid = false) : Rejects s tid where
  calls := by
    intro call member
    simp only [idCalls, List.mem_cons, List.not_mem_nil, or_false] at member
    rcases member with rfl | rfl | rfl | rfl
    · exact ⟨true, fun _ => uthreadTerminate_invalid invalid⟩
    · exact ⟨false, fun _ => uthreadBlock_invalid invalid⟩
    · exact ⟨true, fun _ => uthreadResume_invalid invalid⟩
    · exact ⟨false, fun _ => uthreadSync_invalid invalid⟩
  getQuantums := fun _ => by simp [uthreadGetQuantums, invalid]

/-- An id that passes as valid is looked up. -/
theorem not_rejects_of_isValid (valid : s.tids.isValid tid = true)
    (noEntry : s.uthreads tid = none) : ¬ Rejects s tid := by
  intro rejects
  have result := rejects.getQuantums s.uthreads
  simp [uthreadGetQuantums, valid, noEntry] at result

/-- **Ids of no thread.** In every state of every run, an id that has no thread
is rejected by the functions of the interface, without effect and without a look
at `uthreads`, exactly if it is in range. -/
theorem rejects_iff (reachable : machine.Reachable m) (noThread : m.lib.NoThread tid) :
    Rejects m.lib tid ↔ 0 ≤ tid ∧ tid < maxThreadNum := by
  have fit := (pooled_of_reachable reachable).fit
  constructor
  · intro rejects
    by_contra outside
    have valid : m.lib.tids.isValid tid = true := by
      rw [← Bool.not_eq_false, isValid_eq_false, fit.maxId]
      exact fun invalid => outside ⟨invalid.2.1, invalid.1⟩
    exact not_rejects_of_isValid valid (fit.outside tid outside) rejects
  · rintro ⟨nonneg, below⟩
    have unused : tid ∈ m.lib.tids.unusedIds.keys :=
      noThread.elim (fit.inside tid nonneg below) id
    exact rejects_of_invalid (isValid_eq_false.mpr ⟨fit.maxId ▸ below, nonneg, unused⟩)

theorem rejects_iff_terminated : ∃ m,
    exec Machine.next initialMachine [.call .spawn, .call (.terminate 1)] = some m ∧
      Rejects m.lib 1 := by
  refine ⟨_, rfl, ?_⟩
  have run : exec Machine.next initialMachine [.call .spawn, .call (.terminate 1)] = some _ := rfl
  exact (rejects_iff (exec_reachable (.init rfl) run) (.inl rfl)).mpr ⟨by decide, by decide⟩

/-- **An id out of range.** Right after `uthread_init`, `uthread_block(-1)` takes
-1 for an id of a thread and reads the entry it does not have. -/
theorem negative_id_not_rejected :
    initialMachine.lib.NoThread (-1) ∧ uthreadBlock initialMachine.lib (-1) = none ∧
      ¬ Rejects initialMachine.lib (-1) := by
  have noEntry : initialMachine.lib.uthreads (-1) = none := rfl
  have valid : initialMachine.lib.tids.isValid (-1) = true := by decide +kernel
  exact ⟨.inl noEntry, by decide +kernel, not_rejects_of_isValid valid noEntry⟩

end Os2018.Uthreads
