import Os2018.Library.Transition
import Os2018.Uthreads.Api

/-!
# What each call does

One lemma for each function of the interface says everything that the function
can do: it rejects its argument, does nothing, or changes the state in the one
way that a closed form describes. The closed form of `uthread_terminate` takes
its loop in one go: all dependents lose their flag, and those not blocked
otherwise are appended to the ready threads.

The library is a deterministic system over calls and timer switches
(`State.next`). A call of the running thread and the switch it ends in are one
step of it.
-/

set_option autoImplicit false

namespace Os2018.Uthreads

open Transition

variable {s t : State} {tid : Int} {ending : Ending}

/-! ## Closed forms -/

/-- `uthreads[i]->sync_blocked = false`. -/
def Thread.wake (thread : Thread) : Thread := { thread with syncBlocked := false }

/-- Neither of the two flags is set. -/
def Thread.Unblocked (thread : Thread) : Prop :=
  thread.blockedDirectly = false ∧ thread.syncBlocked = false

/-- A new thread under an id of the pool. -/
def State.spawned (s : State) (id : Int) : State :=
  (({ s with
      tids := { s.tids with unusedIds := s.tids.unusedIds.erase id }
      nextStack := s.nextStack + 1 }).setThread id (some (.new s.nextStack))).pushReady id

theorem State.spawned_self (s : State) (id : Int) :
    (s.spawned id).uthreads id = some (.new s.nextStack) :=
  Function.update_self ..

theorem State.spawned_of_ne (s : State) {id other : Int} (different : other ≠ id) :
    (s.spawned id).uthreads other = s.uthreads other :=
  Function.update_of_ne different ..

/-- The dependents that become ready. -/
def State.awakened (s : State) (dependents : List Int) : List Int :=
  dependents.filter fun i => ((s.uthreads i).map Thread.blockedDirectly) = some false

/-- The dependents without their flag, the others of them made ready. -/
def State.wakeAll (s : State) (dependents : List Int) : State :=
  { s with
    ready := s.ready ++ s.awakened dependents
    uthreads := fun i => if i ∈ dependents then (s.uthreads i).map Thread.wake else s.uthreads i }

/-- A thread's id back in the pool and its dependents awake. -/
def State.released (s : State) (tid : Int) (thread : Thread) : State :=
  (({ s with tids := s.tids.removeId tid }).removeReady tid).wakeAll thread.syncDependencies

theorem modify_eq_some {change : Thread → Thread} :
    s.modify tid change = some t ↔ ∃ thread, s.uthreads tid = some thread ∧
      t = s.setThread tid (some (change thread)) := by
  rw [State.modify, Option.map_eq_some_iff]
  simp only [eq_comm]

/-! ## The loop of `uthread_terminate` -/

/-- One turn of the loop. -/
def State.wakeOne (s : State) (i : Int) (thread : Thread) : State :=
  if !thread.blockedDirectly then (s.setThread i (some thread.wake)).pushReady i
  else s.setThread i (some thread.wake)

theorem wakeOne_uthreads (s : State) (i : Int) (thread : Thread) :
    (s.wakeOne i thread).uthreads = Function.update s.uthreads i (some thread.wake) := by
  rw [State.wakeOne]
  split_ifs <;> rfl

/-- The turns of the loop do not depend on their order. -/
theorem wakeOne_wakeAll {i : Int} {thread : Thread} (found : s.uthreads i = some thread)
    (rest : List Int) : (s.wakeOne i thread).wakeAll rest = s.wakeAll (i :: rest) := by
  have flags : ∀ j, ((s.wakeOne i thread).uthreads j).map Thread.blockedDirectly =
      (s.uthreads j).map Thread.blockedDirectly := by
    intro j
    rw [wakeOne_uthreads]
    by_cases same : j = i
    · rw [same, Function.update_self, found]
      rfl
    · rw [Function.update_of_ne same]
  apply State.ext
  · funext j
    simp only [State.wakeAll, wakeOne_uthreads, List.mem_cons]
    by_cases same : j = i
    · subst same
      by_cases again : j ∈ rest <;> simp [again, found, Thread.wake]
    · simp [same]
  · simp only [State.wakeAll, State.awakened, flags, List.filter_cons, found]
    rw [State.wakeOne]
    cases blocked : thread.blockedDirectly <;> simp [State.pushReady, blocked]
  all_goals
    simp only [State.wakeAll, State.wakeOne]
    split_ifs <;> rfl

theorem wakeDependents_eq {dependents : List Int} (woken : wakeDependents dependents s = some t) :
    t = s.wakeAll dependents ∧ ∀ i ∈ dependents, ∃ thread, s.uthreads i = some thread := by
  induction dependents generalizing s with
  | nil =>
      cases woken
      simp [State.wakeAll, State.awakened]
  | cons i rest ih =>
      obtain ⟨s', modified, later⟩ := Option.bind_eq_some_iff.mp woken
      obtain ⟨thread, found, rfl⟩ := modify_eq_some.mp modified
      rw [State.setThread_self] at later
      have one : wakeDependents rest (s.wakeOne i thread) = some t := later
      obtain ⟨rfl, live⟩ := ih one
      refine ⟨wakeOne_wakeAll found rest, List.forall_mem_cons.mpr ⟨⟨thread, found⟩, ?_⟩⟩
      intro j member
      obtain ⟨other, isOther⟩ := live j member
      rw [wakeOne_uthreads] at isOther
      by_cases same : j = i
      · exact ⟨thread, same ▸ found⟩
      · exact ⟨other, by rwa [Function.update_of_ne same] at isOther⟩

/-! ## Invalid ids -/

theorem uthreadTerminate_invalid (invalid : s.tids.isValid tid = false) :
    uthreadTerminate s tid = some (s, .returned (-1) true) := by
  simp [uthreadTerminate, invalid]

theorem uthreadBlock_invalid (invalid : s.tids.isValid tid = false) :
    uthreadBlock s tid = some (s, .returned (-1) false) := by
  simp [uthreadBlock, invalid]

theorem uthreadResume_invalid (invalid : s.tids.isValid tid = false) :
    uthreadResume s tid = some (s, .returned (-1) true) := by
  simp [uthreadResume, invalid]

theorem uthreadSync_invalid (invalid : s.tids.isValid tid = false) :
    uthreadSync s tid = some (s, .returned (-1) false) := by
  simp [uthreadSync, invalid]

/-! ## The calls -/

theorem uthreadSpawn_cases (positive : ∀ id ∈ s.tids.unusedIds.keys, 0 < id)
    (run : uthreadSpawn s = (t, ending)) :
    (s.tids.unusedIds.keys = [] ∧ t = s ∧ ending = .returned (-1) false) ∨
      ∃ id ∈ s.tids.unusedIds.keys, (∀ other ∈ s.tids.unusedIds.keys, id ≤ other) ∧
        t = s.spawned id ∧ ending = .returned id false := by
  rw [uthreadSpawn, UniqueId.generateId] at run
  cases first : s.tids.unusedIds.firstKey? with
  | none =>
      rw [first] at run
      cases run
      exact .inl ⟨List.head?_eq_none_iff.mp first, rfl, rfl⟩
  | some id =>
      obtain ⟨member, least⟩ := SortedMap.firstKey?_eq_some first
      have valid : id ≠ -1 := by
        have := positive id member
        omega
      rw [first] at run
      dsimp only at run
      rw [if_neg valid] at run
      cases run
      exact .inr ⟨id, member, least, rfl, rfl⟩

theorem uthreadTerminate_cases (run : uthreadTerminate s tid = some (t, ending)) :
    (s.tids.isValid tid = false ∧ t = s ∧ ending = .returned (-1) true) ∨
      (tid = mainThreadId ∧ ending = .exited 0) ∨
      (s.tids.isValid tid = true ∧ tid ≠ mainThreadId ∧ ∃ thread,
        s.uthreads tid = some thread ∧
        (∀ i ∈ thread.syncDependencies, ∃ dependent, s.uthreads i = some dependent) ∧
        ((s.currentThread = tid ∧ t = s.released tid thread ∧
            ending = .switching .terminateSwitch) ∨
          (s.currentThread ≠ tid ∧ t = (s.released tid thread).deleteThread tid ∧
            ending = .returned 0 false))) := by
  rw [uthreadTerminate] at run
  split_ifs at run with invalid isMain
  · cases run
    exact .inl ⟨by simpa using invalid, rfl, rfl⟩
  · cases run
    exact .inr (.inl ⟨isMain, rfl⟩)
  · obtain ⟨thread, found, run⟩ := Option.bind_eq_some_iff.mp run
    obtain ⟨s', woken, run⟩ := Option.bind_eq_some_iff.mp run
    obtain ⟨rfl, live⟩ := wakeDependents_eq woken
    refine .inr (.inr ⟨by simpa using invalid, isMain, thread, found, live, ?_⟩)
    split_ifs at run with isCurrent
    · cases run
      exact .inl ⟨isCurrent, rfl, rfl⟩
    · cases run
      exact .inr ⟨isCurrent, rfl, rfl⟩

theorem uthreadBlock_cases (run : uthreadBlock s tid = some (t, ending)) :
    (t = s ∧ (∃ value masked, ending = .returned value masked) ∧
        (s.tids.isValid tid = false ∨ tid = mainThreadId ∨
          ∃ thread, s.uthreads tid = some thread ∧ thread.blockedDirectly = true)) ∨
      (tid ≠ mainThreadId ∧ ∃ thread, s.uthreads tid = some thread ∧
        ((s.currentThread = tid ∧
            t = s.setThread tid (some { thread with blockedDirectly := true }) ∧
            ending = .switching .blockSwitch) ∨
          (s.currentThread ≠ tid ∧ thread.blockedDirectly = false ∧
            t = (s.setThread tid (some { thread with blockedDirectly := true })).removeReady tid ∧
            ending = .returned 0 false))) := by
  rw [uthreadBlock] at run
  split_ifs at run with invalid isCurrent
  · cases run
    refine .inl ⟨rfl, ⟨_, _, rfl⟩, ?_⟩
    rcases (Bool.or_eq_true _ _).mp invalid with unused | isMain
    · exact .inl (by simpa using unused)
    · exact .inr (.inl (by simpa using isMain))
  · obtain ⟨-, other⟩ : s.tids.isValid tid = true ∧ tid ≠ mainThreadId := by simpa using invalid
    obtain ⟨s', modified, run⟩ := Option.bind_eq_some_iff.mp run
    obtain ⟨thread, found, rfl⟩ := modify_eq_some.mp modified
    cases run
    exact .inr ⟨other, thread, found, .inl ⟨isCurrent, rfl, rfl⟩⟩
  · obtain ⟨-, other⟩ : s.tids.isValid tid = true ∧ tid ≠ mainThreadId := by simpa using invalid
    obtain ⟨thread, found, run⟩ := Option.bind_eq_some_iff.mp run
    split_ifs at run with free
    · obtain ⟨s', modified, run⟩ := Option.bind_eq_some_iff.mp run
      obtain ⟨_, found', rfl⟩ := modify_eq_some.mp modified
      rw [found, Option.some.injEq] at found'
      subst found'
      cases run
      exact .inr ⟨other, thread, found, .inr ⟨isCurrent, by simpa using free, rfl, rfl⟩⟩
    · cases run
      exact .inl ⟨rfl, ⟨_, _, rfl⟩, .inr (.inr ⟨thread, found, by simpa using free⟩)⟩

theorem uthreadResume_cases (run : uthreadResume s tid = some (t, ending)) :
    (∃ value masked, ending = .returned value masked) ∧
      (t = s ∨ (tid ≠ s.currentThread ∧ ∃ thread, s.uthreads tid = some thread ∧
        thread.blockedDirectly = true ∧
        ((thread.syncBlocked = true ∧
            t = s.setThread tid (some { thread with blockedDirectly := false })) ∨
          (thread.syncBlocked = false ∧
            t = (s.setThread tid (some { thread with blockedDirectly := false })).pushReady
              tid)))) := by
  rw [uthreadResume] at run
  split_ifs at run with invalid noEffect
  · cases run
    exact ⟨⟨_, _, rfl⟩, .inl rfl⟩
  · cases run
    exact ⟨⟨_, _, rfl⟩, .inl rfl⟩
  · obtain ⟨-, other⟩ : tid ≠ mainThreadId ∧ tid ≠ s.currentThread := by simpa using noEffect
    obtain ⟨thread, found, run⟩ := Option.bind_eq_some_iff.mp run
    by_cases blocked : thread.blockedDirectly = true
    · rw [if_pos blocked] at run
      obtain ⟨s', modified, run⟩ := Option.bind_eq_some_iff.mp run
      obtain ⟨_, found', rfl⟩ := modify_eq_some.mp modified
      rw [found, Option.some.injEq] at found'
      subst found'
      cases synced : thread.syncBlocked with
      | true =>
          rw [synced] at run
          cases run
          exact ⟨⟨_, _, rfl⟩,
            .inr ⟨other, thread, found, blocked, .inl ⟨synced, by rw [synced]; rfl⟩⟩⟩
      | false =>
          rw [synced] at run
          cases run
          exact ⟨⟨_, _, rfl⟩,
            .inr ⟨other, thread, found, blocked, .inr ⟨synced, by rw [synced]; rfl⟩⟩⟩
    · rw [if_neg blocked] at run
      cases run
      exact ⟨⟨_, _, rfl⟩, .inl rfl⟩

theorem uthreadSync_cases (run : uthreadSync s tid = some (t, ending)) :
    (t = s ∧ ending = .returned (-1) false) ∨
      (s.currentThread ≠ mainThreadId ∧ tid ≠ s.currentThread ∧ ∃ thread target,
        s.uthreads s.currentThread = some thread ∧ s.uthreads tid = some target ∧
        t = (s.setThread s.currentThread (some { thread with syncBlocked := true })).setThread tid
          (some { target with
            syncDependencies := target.syncDependencies ++ [s.currentThread] }) ∧
        ending = .switching .blockSwitch) := by
  rw [uthreadSync] at run
  split_ifs at run with rejected
  · cases run
    exact .inl ⟨rfl, rfl⟩
  · obtain ⟨⟨-, notMain⟩, other⟩ : (s.tids.isValid tid = true ∧
        s.currentThread ≠ mainThreadId) ∧ tid ≠ s.currentThread := by simpa using rejected
    obtain ⟨s', modified, run⟩ := Option.bind_eq_some_iff.mp run
    obtain ⟨thread, found, rfl⟩ := modify_eq_some.mp modified
    obtain ⟨s', modified', run⟩ := Option.bind_eq_some_iff.mp run
    obtain ⟨target, isTarget, rfl⟩ := modify_eq_some.mp modified'
    rw [State.setThread_of_ne _ _ _ other] at isTarget
    cases run
    exact .inr ⟨notMain, other, thread, target, found, isTarget, rfl, rfl⟩

/-! ## `switch_threads` -/

theorem deleteThread_find {i : Int} {thread : Thread} :
    (s.deleteThread tid).uthreads i = some thread ↔ i ≠ tid ∧ s.uthreads i = some thread := by
  rw [State.deleteThread]
  by_cases same : i = tid
  · simp [same]
  · simp [same]

theorem leave_tids (s : State) (signum : Signum) : (s.leave signum).tids = s.tids := by
  cases signum <;> rfl

/-- Only a thread that ends is not there any more when it is left. -/
theorem leave_find {signum : Signum} {i : Int} {thread : Thread} :
    (s.leave signum).uthreads i = some thread ↔
      s.uthreads i = some thread ∧ (signum = .terminateSwitch → i ≠ s.currentThread) := by
  cases signum with
  | sigvtalrm => exact (and_iff_left nofun).symm
  | terminateSwitch => simpa [State.leave, and_comm] using deleteThread_find
  | blockSwitch => exact (and_iff_left nofun).symm

theorem dispatch_cases (picked : s.dispatch = some t) :
    ∃ next ready thread, s.ready = next :: ready ∧ s.uthreads next = some thread ∧
      t = { s.setThread next (some { thread with quantums := thread.quantums + 1 }) with
        currentThread := next, ready, totalQuantums := s.totalQuantums + 1 } := by
  rw [State.dispatch] at picked
  split at picked
  · cases picked
  next next ready queue =>
    obtain ⟨thread, found, rfl⟩ := modify_eq_some.mp picked
    exact ⟨next, ready, thread, queue, found, rfl⟩

/-! ## How the calls end -/

theorem uthreadSpawn_returns (s : State) : ∃ value, (uthreadSpawn s).2 = .returned value false := by
  rw [uthreadSpawn]
  split
  split_ifs
  · exact ⟨_, rfl⟩
  · exact ⟨_, rfl⟩

/-- A call that switches calls `switch_threads` directly. -/
theorem switching_direct {call : Call} {signum : Signum}
    (run : call.run s = some (t, .switching signum)) : signum ≠ .sigvtalrm := by
  rintro rfl
  cases call with
  | spawn =>
      obtain ⟨value, returns⟩ := uthreadSpawn_returns s
      have result : uthreadSpawn s = (t, .switching .sigvtalrm) := Option.some.inj run
      rw [result] at returns
      cases returns
  | terminate tid =>
      rcases uthreadTerminate_cases run with ⟨-, -, ending⟩ | ⟨-, ending⟩ |
        ⟨-, -, _, -, -, ⟨-, -, ending⟩ | ⟨-, -, ending⟩⟩ <;> cases ending
  | block tid =>
      rcases uthreadBlock_cases run with ⟨-, ⟨_, _, ending⟩, -⟩ |
        ⟨-, _, -, ⟨-, -, ending⟩ | ⟨-, -, -, ending⟩⟩ <;> cases ending
  | resume tid =>
      obtain ⟨⟨_, _, ending⟩, -⟩ := uthreadResume_cases run
      cases ending
  | sync tid =>
      rcases uthreadSync_cases run with ⟨-, ending⟩ | ⟨-, -, _, _, -, -, -, ending⟩ <;> cases ending

/-! ## Runs -/

inductive Event where
  /-- The running thread calls a function of the interface. -/
  | call (call : Call)
  /-- The quantum of the running thread ends. -/
  | timer
  deriving DecidableEq, Repr

/-- A step that neither crashes nor leaves the process. -/
def State.next (s : State) : Event → Option State
  | .call call =>
      match call.run s with
      | some (t, .returned _ _) => some t
      | some (t, .switching signum) => switchThreads t signum
      | some (_, .exited _) => none
      | none => none
  | .timer => switchThreads s .sigvtalrm

/-- The library between API calls. -/
def library : System State Event := .ofFunction State.next uthreadInit

theorem next_call_cases {call : Call} (step : s.next (.call call) = some t) :
    (∃ value masked, call.run s = some (t, .returned value masked)) ∨
      ∃ u signum, call.run s = some (u, .switching signum) ∧ switchThreads u signum = some t := by
  rw [State.next] at step
  split at step
  next value masked run =>
    cases step
    exact .inl ⟨value, masked, run⟩
  next u signum run => exact .inr ⟨u, signum, run, step⟩
  · cases step
  · cases step

end Os2018.Uthreads
