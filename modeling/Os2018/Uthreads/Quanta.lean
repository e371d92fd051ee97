import Os2018.Library.Census
import Os2018.Uthreads.Allocation

/-!
# Who gets the quanta

Each pass through `switch_threads` starts a quantum of the thread at the front of
the queue. The incarnations that the quanta of a run go to, in order, are its
ledger (`quanta`). Whatever the calls of a run do, the two counters that the
library reports are read off the ledger: `uthread_get_total_quantums` is its
length, and `uthread_get_quantums` the number of entries that name the thread, as
long as the ledger is no longer than an `int` can count (`quanta_counted`).

The queue is first in, first out. A thread with `k` others before it is
dispatched by the `k + 1`st switch at the latest, in every run that neither
blocks nor terminates it (`bounded_waiting`).
-/

set_option autoImplicit false

namespace Os2018.Uthreads

open Transition

variable {s t : State} {tid : Int} {ending : Ending} {event : Event} {events : List Event}

/-! ## The ledger of a run -/

/-- The step goes through `switch_threads`. -/
def State.switches (s : State) : Event → Bool
  | .timer => true
  | .call call =>
      match call.run s with
      | some (_, .switching _) => true
      | _ => false

/-- The incarnation that runs. -/
def State.runningStack (s : State) : List Nat :=
  ((s.uthreads s.currentThread).map Thread.stack).toList

/-- The incarnation whose quantum the step starts, if it starts one. -/
def started (s : State) (event : Event) (t : State) : List Nat :=
  if s.switches event then t.runningStack else []

/-- The incarnations whose quanta the steps of a run start, in order. -/
def quanta (s : State) (events : List Event) : List Nat := trace State.next started s events

/-! ## Calls leave the counters alone -/

/-- No thread is new, and a live thread is the same incarnation with the same
count as before. -/
structure Retains (s t : State) : Prop where
  total : t.totalQuantums = s.totalQuantums
  nextStack : t.nextStack = s.nextStack
  thread : ∀ i after, t.uthreads i = some after → ∃ before, s.uthreads i = some before ∧
    before.stack = after.stack ∧ before.quantums = after.quantums

theorem Retains.refl (s : State) : Retains s s where
  total := rfl
  nextStack := rfl
  thread := fun _ after found => ⟨after, found, rfl, rfl⟩

theorem retains_setThread {before after : Thread} (found : s.uthreads tid = some before)
    (stack : before.stack = after.stack) (quantums : before.quantums = after.quantums) :
    Retains s (s.setThread tid (some after)) where
  total := rfl
  nextStack := rfl
  thread := by
    intro i thread isThread
    by_cases same : i = tid
    · subst same
      rw [State.setThread_self, Option.some.injEq] at isThread
      subst isThread
      exact ⟨before, found, stack, quantums⟩
    · rw [State.setThread_of_ne _ _ _ same] at isThread
      exact ⟨thread, isThread, rfl, rfl⟩

/-- The queue has no part in it. -/
theorem Retains.with_ready (retains : Retains s t) (ready : List Int) :
    Retains s { t with ready } where
  total := retains.total
  nextStack := retains.nextStack
  thread := retains.thread

theorem retains_released (s : State) (tid : Int) (thread : Thread) :
    Retains s (s.released tid thread) where
  total := rfl
  nextStack := rfl
  thread := by
    intro i after isAfter
    obtain ⟨before, isBefore, rfl⟩ := released_find.mp isAfter
    refine ⟨before, isBefore, ?_⟩
    split_ifs
    · exact ⟨rfl, rfl⟩
    · exact ⟨rfl, rfl⟩

theorem Retains.deleteThread (retains : Retains s t) (tid : Int) :
    Retains s (t.deleteThread tid) where
  total := retains.total
  nextStack := retains.nextStack
  thread := fun i after found => retains.thread i after (deleteThread_find.mp found).2

theorem Retains.pushReady (retains : Retains s t) (tid : Int) : Retains s (t.pushReady tid) :=
  retains.with_ready _

theorem Retains.removeReady (retains : Retains s t) (tid : Int) : Retains s (t.removeReady tid) :=
  retains.with_ready _

theorem Retains.leave (retains : Retains s t) (signum : Signum) : Retains s (t.leave signum) := by
  cases signum with
  | sigvtalrm => exact retains.pushReady _
  | terminateSwitch => exact retains.deleteThread _
  | blockSwitch => exact retains

theorem retains_syncedTo (s : State) (waiter target : Int) :
    Retains s (s.syncedTo waiter target) where
  total := rfl
  nextStack := rfl
  thread := by
    intro i after isAfter
    obtain ⟨before, isBefore, rfl⟩ := syncedTo_find.mp isAfter
    exact ⟨before, isBefore, rfl, rfl⟩

/-- A call retains all threads, or it is the spawn of one more. -/
theorem Manned.retains_call (manned : Manned s) {call : Call}
    (run : call.run s = some (t, ending)) (stays : ∀ code, ending ≠ .exited code) :
    Retains s t ∨ ∃ id value, s.uthreads id = none ∧ t = s.spawned id ∧
      ending = .returned value false := by
  cases call with
  | spawn =>
      rcases uthreadSpawn_cases manned.fit.positive (Option.some.inj run) with
        ⟨-, rfl, -⟩ | ⟨id, unused, -, rfl, rfl⟩
      · exact .inl (.refl t)
      · exact .inr ⟨id, id, manned.pool_free id unused, rfl, rfl⟩
  | terminate tid =>
      rcases uthreadTerminate_cases run with ⟨-, rfl, -⟩ | ⟨-, exits⟩ |
        ⟨-, -, thread, -, -, ⟨-, rfl, -⟩ | ⟨-, rfl, -⟩⟩
      · exact .inl (.refl t)
      · exact absurd exits (stays 0)
      · exact .inl (retains_released s tid thread)
      · exact .inl ((retains_released s tid thread).deleteThread tid)
  | block tid =>
      rcases uthreadBlock_cases run with ⟨rfl, -⟩ |
        ⟨-, thread, found, ⟨-, rfl, -⟩ | ⟨-, -, rfl, -⟩⟩
      · exact .inl (.refl t)
      · exact .inl (retains_setThread found rfl rfl)
      · have blocked : Retains s (s.setThread tid (some { thread with blockedDirectly := true })) :=
          retains_setThread found rfl rfl
        exact .inl (blocked.removeReady tid)
  | resume tid =>
      obtain ⟨-, rfl | ⟨-, thread, found, -, ⟨-, rfl⟩ | ⟨-, rfl⟩⟩⟩ := uthreadResume_cases run
      · exact .inl (.refl t)
      · exact .inl (retains_setThread found rfl rfl)
      · have resumed : Retains s
            (s.setThread tid (some { thread with blockedDirectly := false })) :=
          retains_setThread found rfl rfl
        exact .inl (resumed.pushReady tid)
  | sync tid =>
      rcases uthreadSync_cases run with ⟨rfl, -⟩ |
        ⟨-, other, thread, target, found, isTarget, rfl, -⟩
      · exact .inl (.refl t)
      · rw [syncedTo_eq other found isTarget]
        exact .inl (retains_syncedTo s _ tid)

/-- A step retains all threads, spawns one, or dispatches the next thread of a
queue, and only then it starts a quantum. -/
theorem Manned.next_parts (manned : Manned s) (step : s.next event = some t) :
    (s.switches event = false ∧
        (Retains s t ∨ ∃ id, s.uthreads id = none ∧ t = s.spawned id)) ∨
      (s.switches event = true ∧ ∃ u, Retains s u ∧ u.dispatch = some t) := by
  cases event with
  | timer => exact .inr ⟨rfl, _, (Retains.refl s).leave .sigvtalrm, step⟩
  | call call =>
      rcases next_call_cases step with ⟨value, masked, run⟩ | ⟨u, signum, run, switched⟩
      · refine .inl ⟨by rw [State.switches, run], ?_⟩
        rcases manned.retains_call run nofun with retains | ⟨id, _, free, spawned, -⟩
        · exact .inl retains
        · exact .inr ⟨id, free, spawned⟩
      · refine .inr ⟨by rw [State.switches, run], _, ?_, switched⟩
        rcases manned.retains_call run nofun with retains | ⟨_, _, -, -, impossible⟩
        · exact retains.leave signum
        · cases impossible

/-! ## The counters are read off the ledger -/

/-- The counters say what the ledger says, and the stacks tell the live threads
and the entries apart. -/
structure Accounts (ledger : List Nat) (s : State) : Prop where
  total : s.totalQuantums = ledger.length
  spent : ∀ stack ∈ ledger, stack < s.nextStack
  allocated : ∀ i thread, s.uthreads i = some thread → thread.stack < s.nextStack
  distinct : ∀ i j thread other, s.uthreads i = some thread → s.uthreads j = some other →
    thread.stack = other.stack → i = j
  counted : ∀ i thread, s.uthreads i = some thread → thread.quantums = ledger.count thread.stack

variable {ledger : List Nat}

theorem Accounts.retains (accounts : Accounts ledger s) (retains : Retains s t) :
    Accounts ledger t where
  total := retains.total.trans accounts.total
  spent := by
    rw [retains.nextStack]
    exact accounts.spent
  allocated := by
    intro i after isAfter
    obtain ⟨before, isBefore, stack, -⟩ := retains.thread i after isAfter
    rw [retains.nextStack, ← stack]
    exact accounts.allocated i before isBefore
  distinct := by
    intro i j after after' isAfter isAfter' same
    obtain ⟨before, isBefore, stack, -⟩ := retains.thread i after isAfter
    obtain ⟨before', isBefore', stack', -⟩ := retains.thread j after' isAfter'
    exact accounts.distinct i j before before' isBefore isBefore'
      (stack.trans (same.trans stack'.symm))
  counted := by
    intro i after isAfter
    obtain ⟨before, isBefore, stack, quantums⟩ := retains.thread i after isAfter
    rw [← stack, ← quantums]
    exact accounts.counted i before isBefore

/-- A new thread has no entry yet. -/
theorem Accounts.spawned (accounts : Accounts ledger s) {id : Int} (free : s.uthreads id = none) :
    Accounts ledger (s.spawned id) where
  total := accounts.total
  spent := fun stack member => Nat.lt_succ_of_lt (accounts.spent stack member)
  allocated := by
    intro i thread found
    rcases (spawned_find free).mp found with ⟨-, rfl⟩ | found
    · exact Nat.lt_succ_self _
    · exact Nat.lt_succ_of_lt (accounts.allocated i thread found)
  distinct := by
    intro i j thread other found found' same
    rcases (spawned_find free).mp found with ⟨isNew, rfl⟩ | old
    · rcases (spawned_find free).mp found' with ⟨isNew', -⟩ | old'
      · exact isNew.trans isNew'.symm
      · exact absurd same (accounts.allocated j other old').ne'
    · rcases (spawned_find free).mp found' with ⟨-, rfl⟩ | old'
      · exact absurd same (accounts.allocated i thread old).ne
      · exact accounts.distinct i j thread other old old' same
  counted := by
    intro i thread found
    rcases (spawned_find free).mp found with ⟨-, rfl⟩ | found
    · have unspent : s.nextStack ∉ ledger := fun member =>
        lt_irrefl _ (accounts.spent _ member)
      exact (List.count_eq_zero_of_not_mem unspent).symm
    · exact accounts.counted i thread found

/-- The quantum of the dispatched thread is entered. -/
theorem Accounts.dispatch (accounts : Accounts ledger s) (picked : s.dispatch = some t) :
    Accounts (ledger ++ t.runningStack) t := by
  obtain ⟨next, ready, thread, -, found, rfl⟩ := dispatch_cases picked
  have entry : State.runningStack
      { s.setThread next (some { thread with quantums := thread.quantums + 1 }) with
        currentThread := next, ready, totalQuantums := s.totalQuantums + 1 } =
      [thread.stack] := by
    simp [State.runningStack]
  have find : ∀ i after, (s.setThread next
      (some { thread with quantums := thread.quantums + 1 })).uthreads i = some after →
      ∃ before, s.uthreads i = some before ∧ before.stack = after.stack ∧
        after.quantums = before.quantums + if i = next then 1 else 0 := by
    intro i after isAfter
    by_cases same : i = next
    · subst same
      rw [State.setThread_self, Option.some.injEq] at isAfter
      subst isAfter
      exact ⟨thread, found, rfl, by rw [if_pos rfl]⟩
    · rw [State.setThread_of_ne _ _ _ same] at isAfter
      exact ⟨after, isAfter, rfl, by rw [if_neg same, Nat.add_zero]⟩
  rw [entry]
  refine ⟨?_, ?_, ?_, ?_, ?_⟩
  · rw [List.length_append, List.length_singleton, ← accounts.total]
  · intro stack member
    rcases List.mem_append.mp member with old | new
    · exact accounts.spent stack old
    · rw [List.mem_singleton.mp new]
      exact accounts.allocated next thread found
  · intro i after isAfter
    obtain ⟨before, isBefore, stack, -⟩ := find i after isAfter
    rw [← stack]
    exact accounts.allocated i before isBefore
  · intro i j after after' isAfter isAfter' same
    obtain ⟨before, isBefore, stack, -⟩ := find i after isAfter
    obtain ⟨before', isBefore', stack', -⟩ := find j after' isAfter'
    exact accounts.distinct i j before before' isBefore isBefore'
      (stack.trans (same.trans stack'.symm))
  · intro i after isAfter
    obtain ⟨before, isBefore, stack, quantums⟩ := find i after isAfter
    have isNext : i = next ↔ thread.stack = before.stack := by
      constructor
      · rintro rfl
        rw [found, Option.some.injEq] at isBefore
        rw [isBefore]
      · intro same
        exact accounts.distinct i next before thread isBefore found same.symm
    rw [quantums, accounts.counted i before isBefore, List.count_append, List.count_singleton,
      ← stack]
    simp only [beq_iff_eq, isNext]

theorem Accounts.next (accounts : Accounts ledger s) (manned : Manned s)
    (step : s.next event = some t) : Accounts (ledger ++ started s event t) t := by
  rcases manned.next_parts step with ⟨stays, retains | ⟨id, free, rfl⟩⟩ |
    ⟨switches, u, retains, picked⟩
  · simpa [started, stays] using accounts.retains retains
  · simpa [started, stays] using accounts.spawned free
  · rw [started, if_pos switches]
    exact (accounts.retains retains).dispatch picked

theorem Accounts.exec (accounts : Accounts ledger s) (manned : Manned s)
    (run : exec State.next s events = some t) : Accounts (ledger ++ quanta s events) t := by
  induction events generalizing s ledger with
  | nil =>
      cases run
      simpa [quanta, trace] using accounts
  | cons event events ih =>
      obtain ⟨u, step, rest⟩ := Option.bind_eq_some_iff.mp run
      have later := ih (accounts.next manned step) (manned.next step) rest
      rw [quanta, trace_cons step]
      rwa [List.append_assoc] at later

/-- The main thread has the first quantum. -/
theorem accounts_init : Accounts [0] uthreadInit := by
  have found_iff : ∀ i thread, uthreadInit.uthreads i = some thread ↔
      i = mainThreadId ∧ thread = { Thread.new 0 with quantums := 1 } := by
    intro i thread
    by_cases same : i = mainThreadId
    · simp [uthreadInit, same, eq_comm]
    · simp [uthreadInit, same]
  refine ⟨rfl, by decide, ?_, ?_, ?_⟩
  · intro i thread found
    rw [((found_iff i thread).mp found).2]
    decide
  · intro i j thread other found found' _
    exact ((found_iff i thread).mp found).1.trans ((found_iff j other).mp found').1.symm
  · intro i thread found
    rw [((found_iff i thread).mp found).2]
    rfl

/-- The quanta of the live threads. -/
def State.liveQuantums (s : State) : Nat :=
  ∑ tid ∈ Finset.range maxThreadNum.toNat, ((s.uthreads tid).map Thread.quantums).getD 0

theorem Accounts.liveQuantums (accounts : Accounts ledger s)
    (inRange : ∀ i thread, s.uthreads i = some thread → 0 ≤ i ∧ i < maxThreadNum) :
    s.liveQuantums ≤ ledger.length ∧ (s.liveQuantums = ledger.length ↔
      ∀ stack ∈ ledger, ∃ i thread, s.uthreads i = some thread ∧ thread.stack = stack) := by
  classical
  have shares : s.liveQuantums = ∑ tid ∈ Finset.range maxThreadNum.toNat,
      ((s.uthreads tid).map Thread.stack).elim 0 ledger.count := by
    apply Finset.sum_congr rfl
    intro i _
    cases found : s.uthreads i with
    | none => rfl
    | some thread => exact accounts.counted i thread found
  have distinct : ∀ (i j : Nat) stack, (s.uthreads i).map Thread.stack = some stack →
      (s.uthreads j).map Thread.stack = some stack → i = j := by
    intro i j stack isStack isStack'
    obtain ⟨thread, found, rfl⟩ := Option.map_eq_some_iff.mp isStack
    obtain ⟨other, found', same⟩ := Option.map_eq_some_iff.mp isStack'
    exact Int.ofNat_inj.mp (accounts.distinct i j thread other found found' same.symm)
  rw [shares, Census.sum_shares distinct]
  refine ⟨List.countP_le_length, ?_⟩
  rw [List.countP_eq_length]
  apply forall₂_congr
  intro stack _
  rw [decide_eq_true_eq]
  constructor
  · rintro ⟨i, -, isStack⟩
    obtain ⟨thread, found, same⟩ := Option.map_eq_some_iff.mp isStack
    exact ⟨i, thread, found, same⟩
  · rintro ⟨i, thread, found, same⟩
    obtain ⟨positive, small⟩ := inRange i thread found
    lift i to Nat using positive
    exact ⟨i, Finset.mem_range.mpr (by omega), by rw [found, ← same]; rfl⟩

theorem Manned.inRange (manned : Manned s) (live : s.Live tid) : 0 ≤ tid ∧ tid < maxThreadNum := by
  obtain ⟨thread, found⟩ := live
  by_contra outside
  cases (manned.fit.outside tid outside).symm.trans found

/-- The largest `int`. -/
def intMax : Nat := 2 ^ 31 - 1

/-- **The two counters.** After every run from `uthread_init` that starts no more
quanta than an `int` can count, neither counter overflows; the total is the length
of the ledger and the count of a live thread the number of its entries. The
counts of the live threads add up to at most the total, and to the total exactly if
all quanta went to threads that still live. -/
theorem quanta_counted (run : exec State.next uthreadInit events = some t)
    (short : (0 :: quanta uthreadInit events).length ≤ intMax) :
    (uthreadGetTotalQuantums t = (0 :: quanta uthreadInit events).length ∧
        uthreadGetTotalQuantums t ≤ intMax) ∧
      (∀ tid thread, t.uthreads tid = some thread →
        uthreadGetQuantums t tid = some ((0 :: quanta uthreadInit events).count thread.stack) ∧
          thread.quantums ≤ intMax) ∧
      t.liveQuantums ≤ uthreadGetTotalQuantums t ∧
      (t.liveQuantums = uthreadGetTotalQuantums t ↔
        ∀ stack ∈ 0 :: quanta uthreadInit events,
          ∃ tid thread, t.uthreads tid = some thread ∧ thread.stack = stack) := by
  have manned : Manned t := manned_of_reachable (exec_reachable (.init rfl) run)
  have accounts : Accounts (0 :: quanta uthreadInit events) t :=
    accounts_init.exec manned_init run
  have total : uthreadGetTotalQuantums t = (0 :: quanta uthreadInit events).length :=
    accounts.total
  refine ⟨⟨total, total.trans_le short⟩, fun tid thread found => ?_, ?_⟩
  · have valid : t.tids.isValid tid = true := manned.isValid_of_live ⟨thread, found⟩
    have counted := accounts.counted tid thread found
    refine ⟨?_, counted.trans_le (List.count_le_length.trans short)⟩
    rw [uthreadGetQuantums, valid, found, ← counted]
    rfl
  · rw [total]
    exact accounts.liveQuantums fun i thread found => manned.inRange ⟨thread, found⟩

/-- Thread 1 ends after two quanta, which the live threads then lack. -/
theorem quanta_counted_terminated : ∃ t,
    exec State.next uthreadInit [.call .spawn, .call .spawn, .timer, .timer, .timer, .timer,
      .call (.terminate 1)] = some t ∧
      uthreadGetTotalQuantums t = 6 ∧ uthreadGetQuantums t 2 = some 2 ∧ t.liveQuantums = 4 := by
  have result : (exec State.next uthreadInit [.call .spawn, .call .spawn, .timer, .timer, .timer,
      .timer, .call (.terminate 1)]).map (fun t => (t.uthreads 2, t.liveQuantums)) =
        some (some ⟨false, false, 2, [], 2⟩, 4) := by decide +kernel
  have ledger : quanta uthreadInit [.call .spawn, .call .spawn, .timer, .timer, .timer, .timer,
      .call (.terminate 1)] = [1, 2, 0, 1, 2] := by decide +kernel
  obtain ⟨t, run, facts⟩ := Option.map_eq_some_iff.mp result
  obtain ⟨found, live⟩ := Prod.ext_iff.mp facts
  have counters := quanta_counted run (by rw [ledger]; decide)
  rw [ledger] at counters
  exact ⟨t, run, counters.1.1, (counters.2.1 2 _ found).1, live⟩

/-! ## First in, first out -/

/-- A place in a queue is kept, or becomes a better one, when another thread is
removed and more are appended. -/
theorem mem_take_filter_append {queue more : List Int} {other : Int} {n : Nat}
    (different : tid ≠ other) (place : tid ∈ queue.take n) :
    tid ∈ (queue.filter (· ≠ other) ++ more).take n := by
  induction queue generalizing n with
  | nil =>
      rw [List.take_nil] at place
      exact absurd place List.not_mem_nil
  | cons first queue ih =>
      cases n with
      | zero => exact absurd place List.not_mem_nil
      | succ n =>
          rw [List.take_succ_cons, List.mem_cons] at place
          by_cases removed : first = other
          · rw [List.filter_cons_of_neg (by simpa using removed)]
            have later : tid ∈ queue.take n :=
              place.resolve_left fun same => different (same.trans removed)
            exact List.take_subset_take_left _ n.le_succ (ih later)
          · rw [List.filter_cons_of_pos (by simpa using removed), List.cons_append,
              List.take_succ_cons, List.mem_cons]
            exact place.imp_right ih

theorem mem_take_append {queue : List Int} {n : Nat} (more : List Int)
    (place : tid ∈ queue.take n) : tid ∈ (queue ++ more).take n := by
  rw [List.take_append]
  exact List.mem_append_left _ place

/-- A call on other threads keeps the places in the queue. -/
theorem Manned.place_call (manned : Manned s) {call : Call} {n : Nat}
    (run : call.run s = some (t, ending)) (stays : ∀ code, ending ≠ .exited code)
    (untouched : call ≠ .block tid ∧ call ≠ .terminate tid) (place : tid ∈ s.ready.take n) :
    tid ∈ t.ready.take n := by
  cases call with
  | spawn =>
      rcases uthreadSpawn_cases manned.fit.positive (Option.some.inj run) with
        ⟨-, rfl, -⟩ | ⟨id, -, -, rfl, -⟩
      · exact place
      · exact mem_take_append [id] place
  | terminate other =>
      have different : tid ≠ other := fun same => untouched.2 (same ▸ rfl)
      rcases uthreadTerminate_cases run with ⟨-, rfl, -⟩ | ⟨-, exits⟩ |
        ⟨-, -, thread, -, -, ⟨-, rfl, -⟩ | ⟨-, rfl, -⟩⟩
      · exact place
      · exact absurd exits (stays 0)
      · exact mem_take_filter_append different place
      · exact mem_take_filter_append different place
  | block other =>
      have different : tid ≠ other := fun same => untouched.1 (same ▸ rfl)
      rcases uthreadBlock_cases run with ⟨rfl, -⟩ |
        ⟨-, thread, -, ⟨-, rfl, -⟩ | ⟨-, -, rfl, -⟩⟩
      · exact place
      · exact place
      · change tid ∈ (s.ready.filter (· ≠ other)).take n
        rw [← List.append_nil (s.ready.filter (· ≠ other))]
        exact mem_take_filter_append different place
  | resume other =>
      obtain ⟨-, rfl | ⟨-, thread, -, -, ⟨-, rfl⟩ | ⟨-, rfl⟩⟩⟩ := uthreadResume_cases run
      · exact place
      · exact place
      · exact mem_take_append [other] place
  | sync other =>
      rcases uthreadSync_cases run with ⟨rfl, -⟩ | ⟨-, -, _, _, -, -, rfl, -⟩
      · exact place
      · exact place

theorem place_leave {signum : Signum} {n : Nat} (place : tid ∈ s.ready.take n) :
    tid ∈ (s.leave signum).ready.take n := by
  cases signum with
  | sigvtalrm => exact mem_take_append [s.currentThread] place
  | terminateSwitch => exact place
  | blockSwitch => exact place

/-- The front of the queue is dispatched and the others move up by one. -/
theorem place_dispatch {k : Nat} (place : tid ∈ s.ready.take (k + 1))
    (picked : s.dispatch = some t) : t.currentThread = tid ∨ tid ∈ t.ready.take k := by
  obtain ⟨next, ready, thread, queue, -, rfl⟩ := dispatch_cases picked
  rw [queue, List.take_succ_cons, List.mem_cons] at place
  exact place.imp_left Eq.symm

/-- The event neither blocks nor terminates the thread. -/
def LeavesAlone (tid : Int) (event : Event) : Prop :=
  event ≠ .call (.block tid) ∧ event ≠ .call (.terminate tid)

/-- A step starts no quantum and keeps the place, or it starts one: the thread
then runs, or moves up by one. -/
theorem Manned.place_next (manned : Manned s) {k : Nat} (untouched : LeavesAlone tid event)
    (place : tid ∈ s.ready.take (k + 1)) (step : s.next event = some t) :
    (t.totalQuantums = s.totalQuantums ∧ tid ∈ t.ready.take (k + 1)) ∨
      (t.totalQuantums = s.totalQuantums + 1 ∧
        (t.currentThread = tid ∨ tid ∈ t.ready.take k)) := by
  have counted : ∀ {u : State}, u.totalQuantums = s.totalQuantums → u.dispatch = some t →
      t.totalQuantums = s.totalQuantums + 1 := by
    intro u same picked
    obtain ⟨next, ready, thread, -, -, rfl⟩ := dispatch_cases picked
    exact congrArg (· + 1) same
  cases event with
  | timer =>
      exact .inr ⟨@counted (s.leave .sigvtalrm) rfl step, place_dispatch (place_leave place) step⟩
  | call call =>
      have other : call ≠ .block tid ∧ call ≠ .terminate tid :=
        ⟨fun same => untouched.1 (same ▸ rfl), fun same => untouched.2 (same ▸ rfl)⟩
      rcases next_call_cases step with ⟨value, masked, run⟩ | ⟨u, signum, run, switched⟩
      · refine .inl ⟨?_, manned.place_call run nofun other place⟩
        rcases manned.retains_call run nofun with retains | ⟨id, _, -, rfl, -⟩
        · exact retains.total
        · rfl
      · have kept := manned.place_call run nofun other place
        rcases manned.retains_call run nofun with retains | ⟨_, _, -, -, impossible⟩
        · exact .inr ⟨counted (retains.leave signum).total switched,
            place_dispatch (place_leave kept) switched⟩
        · cases impossible

theorem Manned.bounded (manned : Manned s) {k : Nat} (place : tid ∈ s.ready.take (k + 1))
    (run : exec State.next s events = some t)
    (untouched : ∀ event ∈ events, LeavesAlone tid event)
    (enough : s.totalQuantums + k < t.totalQuantums) :
    ∃ before after u, events = before ++ after ∧ exec State.next s before = some u ∧
      u.currentThread = tid ∧ s.totalQuantums < u.totalQuantums ∧
      u.totalQuantums ≤ s.totalQuantums + (k + 1) := by
  induction events generalizing s k with
  | nil =>
      cases run
      exact absurd enough (by omega)
  | cons event events ih =>
      obtain ⟨u, step, rest⟩ := Option.bind_eq_some_iff.mp run
      obtain ⟨alone, later⟩ := List.forall_mem_cons.mp untouched
      -- The later steps dispatch the thread soon enough after the first.
      have lift : ∀ j, tid ∈ u.ready.take (j + 1) → u.totalQuantums + j < t.totalQuantums →
          s.totalQuantums ≤ u.totalQuantums → u.totalQuantums + j ≤ s.totalQuantums + k →
          ∃ before after v, event :: events = before ++ after ∧
            exec State.next s before = some v ∧ v.currentThread = tid ∧
            s.totalQuantums < v.totalQuantums ∧ v.totalQuantums ≤ s.totalQuantums + (k + 1) := by
        intro j place enough increasing bound
        obtain ⟨before, after, v, split, run, runs, fresh, soon⟩ :=
          ih (manned.next step) place rest later enough
        refine ⟨event :: before, after, v, by rw [split, List.cons_append], ?_, runs, by omega,
          by omega⟩
        rw [exec_cons, step, Option.bind_some, run]
      rcases manned.place_next alone place step with ⟨same, kept⟩ | ⟨counted, runs | moved⟩
      · exact lift k kept (by omega) (by omega) (by omega)
      · refine ⟨[event], events, u, rfl, ?_, runs, by omega, by omega⟩
        rw [exec_cons, step, Option.bind_some, exec_nil]
      · cases k with
        | zero => exact absurd moved List.not_mem_nil
        | succ j => exact lift j moved (by omega) (by omega) (by omega)

/-- **Bounded waiting.** From every reachable state, a thread with `k` others
before it in the queue is dispatched by one of the next `k + 1` switches, in
every run that has as many and neither blocks nor terminates it. -/
theorem bounded_waiting (reachable : library.Reachable s) {k : Nat}
    (waits : s.ready[k]? = some tid) (run : exec State.next s events = some t)
    (untouched : ∀ event ∈ events, LeavesAlone tid event)
    (enough : s.totalQuantums + k < t.totalQuantums) :
    ∃ before after u, events = before ++ after ∧ exec State.next s before = some u ∧
      u.currentThread = tid ∧ s.totalQuantums < u.totalQuantums ∧
      u.totalQuantums ≤ s.totalQuantums + (k + 1) := by
  have place : tid ∈ s.ready.take (k + 1) := by
    rw [List.take_add_one, waits]
    exact List.mem_append_right _ (List.mem_singleton_self tid)
  exact (manned_of_reachable reachable).bounded place run untouched enough

/-- Thread 2 waits behind thread 1, which gives way to it. -/
theorem bounded_waiting_second : ∃ s t,
    exec State.next uthreadInit [.call .spawn, .call .spawn] = some s ∧
      exec State.next s [.call (.terminate 7), .timer, .call (.sync 2)] = some t ∧
      ∃ before after u, [.call (.terminate 7), .timer, .call (.sync 2)] = before ++ after ∧
        exec State.next s before = some u ∧ u.currentThread = 2 ∧ u.totalQuantums ≤ 3 := by
  have result : (exec State.next uthreadInit [.call .spawn, .call .spawn]).map
      (fun s => (s.ready, s.totalQuantums,
        (exec State.next s [.call (.terminate 7), .timer, .call (.sync 2)]).map
          State.totalQuantums)) = some ([1, 2], 1, some 3) := by decide +kernel
  obtain ⟨s, earlier, facts⟩ := Option.map_eq_some_iff.mp result
  simp only [Prod.mk.injEq] at facts
  obtain ⟨queue, quantum, facts⟩ := facts
  obtain ⟨t, later, quantums⟩ := Option.map_eq_some_iff.mp facts
  have second : s.ready[1]? = some 2 := by rw [queue]; rfl
  obtain ⟨before, after, u, split, run, runs, -, soon⟩ :=
    bounded_waiting (exec_reachable (.init rfl) earlier) second later
      (by simp [LeavesAlone]) (by rw [quantum, quantums]; decide)
  rw [quantum] at soon
  exact ⟨s, t, earlier, later, before, after, u, split, run, runs, soon⟩

end Os2018.Uthreads
