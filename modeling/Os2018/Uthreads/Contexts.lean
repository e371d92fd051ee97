import Os2018.Uthreads.Machine
import Os2018.Uthreads.Scheduler

/-!
# Saved contexts

`switch_threads` saves the context of the current thread and later jumps to the
context of the thread it has picked. In between, the current thread is no longer
the one whose stack the processor runs on. `SIG_IGN` is to keep signals out, but
only up to the statement that installs the handler again: a signal between that
and the jump starts another call, which saves the old thread's stack as the
context of the new one (`signal_before_jump_saves_wrong_stack`). And a signal that
comes between the write of `SIG_IGN` to `sa` and the first `sigaction` leaves the
handler in `sa`, so that the next one can come anywhere: also right after
`sigsetjmp`, where another call saves over the context just saved and is gone
when the thread is resumed again.

In every run without a signal between `sigsetjmp` and `siglongjmp`, every context
is saved on the stack of its thread and every jump goes to the stack of the
thread it resumes (`contexts_own`). Signals in the gap of a direct switch may
disturb the queue; the contexts still have their owners. What carries the proof is
that an id of a live thread is in the pool exactly while that thread is
terminating itself, so `uthread_spawn` never replaces the running thread.
-/

set_option autoImplicit false

namespace Os2018.Uthreads

open Transition

variable {m n : Machine}

/-! ## Statement -/

/-- Between `sigsetjmp` and `siglongjmp`. -/
def Point.Switching (point : Point) : Prop := point = .saved ∨ point.Leaving

/-- No signal is delivered between `sigsetjmp` and `siglongjmp`. -/
def OutsideSwitch (m : Machine) : MachineEvent → Prop
  | .signal => ∀ frame rest, m.chain = frame :: rest → ¬ frame.point.Switching
  | _ => True

/-- `sigsetjmp` runs on the stack of the current thread, and `siglongjmp` goes to
the stack of the current thread. -/
structure Machine.OwnContexts (m : Machine) : Prop where
  saves : ∀ frame rest, m.chain = frame :: rest → frame.point = .ignored →
    ∃ thread, m.lib.uthreads m.lib.currentThread = some thread ∧ m.stack = thread.stack
  jumps : ∀ frame rest, m.chain = frame :: rest → frame.point = .armed →
    ∃ thread context, m.lib.uthreads m.lib.currentThread = some thread ∧
      m.env m.lib.currentThread = some context ∧ context.stack = thread.stack

/-! ## Executions and their owners -/

/-- The current thread is picked, but not on the processor yet. -/
def Machine.Between (m : Machine) : Prop :=
  ∃ frame rest, m.chain = frame :: rest ∧ frame.point.Leaving

/-- A stack and the calls in progress on it are those of a thread. Its id is in
the pool exactly if it is terminating itself. -/
structure Belongs (pooled : Prop) (thread : Thread) (stack : Nat) (chain : List Frame) : Prop where
  stack : stack = thread.stack
  unfinished : ∀ frame ∈ chain, frame.signum = .terminateSwitch → frame.point.Early
  dying : pooled ↔ ∃ frame ∈ chain, frame.signum = .terminateSwitch

theorem Belongs.congr {pooled pooled' : Prop} {thread thread' : Thread} {stack : Nat}
    {chain : List Frame} (belongs : Belongs pooled thread stack chain) (same : pooled' ↔ pooled)
    (sameStack : thread'.stack = thread.stack) : Belongs pooled' thread' stack chain where
  stack := belongs.stack.trans sameStack.symm
  unfinished := belongs.unfinished
  dying := same.trans belongs.dying

/-- The innermost call goes on. -/
theorem Belongs.move {pooled : Prop} {thread : Thread} {stack : Nat} {frame frame' : Frame}
    {rest : List Frame} (belongs : Belongs pooled thread stack (frame :: rest))
    (signum : frame'.signum = frame.signum)
    (unfinished : frame'.signum = .terminateSwitch → frame'.point.Early) :
    Belongs pooled thread stack (frame' :: rest) where
  stack := belongs.stack
  unfinished := List.forall_mem_cons.mpr
    ⟨unfinished, (List.forall_mem_cons.mp belongs.unfinished).2⟩
  dying := by
    rw [belongs.dying]
    simp [signum]

/-- A call that is not a termination, on top or taken away. -/
theorem Belongs.cons_iff {pooled : Prop} {thread : Thread} {stack : Nat} {frame : Frame}
    {rest : List Frame} (other : frame.signum ≠ .terminateSwitch) :
    Belongs pooled thread stack (frame :: rest) ↔ Belongs pooled thread stack rest := by
  constructor
  · rintro ⟨same, unfinished, dying⟩
    exact ⟨same, (List.forall_mem_cons.mp unfinished).2, dying.trans (by simp [other])⟩
  · rintro ⟨same, unfinished, dying⟩
    exact ⟨same, List.forall_mem_cons.mpr ⟨fun isTermination => absurd isTermination other,
      unfinished⟩, dying.trans (by simp [other])⟩

/-- A call past the choice of the next thread is not a termination. -/
theorem Belongs.survives {pooled : Prop} {thread : Thread} {stack : Nat} {frame : Frame}
    {rest : List Frame} (belongs : Belongs pooled thread stack (frame :: rest))
    (past : ¬ frame.point.Early) : frame.signum ≠ .terminateSwitch :=
  fun isTermination => past (belongs.unfinished frame List.mem_cons_self isTermination)

/-- Every live thread has an execution: the current one on the processor, unless
it is only being switched to, and every other in `env`. -/
structure Owned (m : Machine) : Prop where
  parked : Parked (fun frame => frame.point.Switching) m
  pool_positive : ∀ id ∈ m.lib.tids.unusedIds.keys, 0 < id
  live_nonneg : ∀ i thread, m.lib.uthreads i = some thread → 0 ≤ i
  current : ∃ thread, m.lib.uthreads m.lib.currentThread = some thread
  running : ¬ m.Between → ∀ thread, m.lib.uthreads m.lib.currentThread = some thread →
    Belongs (m.lib.currentThread ∈ m.lib.tids.unusedIds.keys) thread m.stack m.chain
  waiting : ∀ i thread, m.lib.uthreads i = some thread → i ≠ m.lib.currentThread ∨ m.Between →
    ∃ context, m.env i = some context ∧
      Belongs (i ∈ m.lib.tids.unusedIds.keys) thread context.stack context.chain
  saved : ∀ frame rest, m.chain = frame :: rest → frame.point = .saved →
    ∃ mask, m.env m.lib.currentThread =
      some ⟨m.stack, { frame with point := .resumed } :: rest, mask⟩

theorem not_between_of_top
    (calm : ∀ frame rest, m.chain = frame :: rest → ¬ frame.point.Leaving) : ¬ m.Between := by
  rintro ⟨frame, rest, chain, leaving⟩
  exact calm frame rest chain leaving

theorem not_between_nil (own : m.chain = []) : ¬ m.Between :=
  not_between_of_top fun frame rest chain => by cases own.symm.trans chain

theorem not_between_cons {frame : Frame} {rest : List Frame} (chain : m.chain = frame :: rest)
    (here : ¬ frame.point.Leaving) : ¬ m.Between :=
  not_between_of_top (top_of_cons chain here)

theorem Owned.ownContexts (owned : Owned m) : m.OwnContexts where
  saves := by
    intro frame rest chain point
    obtain ⟨thread, found⟩ := owned.current
    have here : ¬ m.Between := not_between_cons chain (by simp [Point.Leaving, point])
    exact ⟨thread, found, (owned.running here thread found).stack⟩
  jumps := by
    intro frame rest chain point
    obtain ⟨thread, found⟩ := owned.current
    obtain ⟨context, isContext, belongs⟩ := owned.waiting _ thread found
      (.inr ⟨frame, rest, chain, .inr (.inr (.inr point))⟩)
    exact ⟨thread, context, found, isContext, belongs.stack⟩

theorem owned_initial : Owned initialMachine where
  parked := parked_initial
  pool_positive := running_init.positive
  live_nonneg := fun i thread found => (running_init.inRange i thread found).1
  current := ⟨_, rfl⟩
  running := by
    intro _ thread found
    have isMain : thread = { Thread.new 0 with quantums := 1 } := (Option.some.inj found).symm
    refine ⟨isMain ▸ rfl, fun _ member => absurd member List.not_mem_nil, ?_⟩
    apply iff_of_false (running_init.awake_live · running_init.current)
    rintro ⟨frame, member, -⟩
    exact absurd member List.not_mem_nil
  waiting := by
    intro i thread found elsewhere
    rcases elsewhere with other | ⟨frame, rest, chain, -⟩
    · have isMain : i = mainThreadId := by
        by_contra notMain
        have dead : uthreadInit.uthreads i = none := by simp [uthreadInit, notMain]
        cases found.symm.trans dead
      exact absurd isMain other
    · cases chain
  saved := fun _ _ chain => by cases chain

/-! ## Statements of `switch_threads` -/

section Tick

variable {frame : Frame} {rest : List Frame}

/-- A statement that leaves the threads and the contexts alone. -/
theorem Owned.of_chain (owned : Owned m)
    (parked : Parked (fun frame => frame.point.Switching) n) (lib : n.lib = m.lib)
    (env : n.env = m.env) (between : n.Between → m.Between)
    (running : ¬ n.Between → ∀ thread, m.lib.uthreads m.lib.currentThread = some thread →
      Belongs (m.lib.currentThread ∈ m.lib.tids.unusedIds.keys) thread n.stack n.chain)
    (saved : ∀ frame rest, n.chain = frame :: rest → frame.point ≠ .saved) : Owned n where
  parked := parked
  pool_positive := by
    rw [lib]
    exact owned.pool_positive
  live_nonneg := by
    rw [lib]
    exact owned.live_nonneg
  current := by
    rw [lib]
    exact owned.current
  running := by
    rw [lib]
    exact running
  waiting := by
    rw [lib, env]
    exact fun i thread found elsewhere => owned.waiting i thread found (elsewhere.imp_right between)
  saved := fun frame rest chain point => absurd point (saved frame rest chain)

/-- A statement of a call that does not switch. -/
theorem Owned.move (owned : Owned m) (chain : m.chain = frame :: rest)
    (here : ¬ frame.point.Leaving) {frame' : Frame} (signum : frame'.signum = frame.signum)
    (unfinished : frame'.signum = .terminateSwitch → frame'.point.Early)
    {thread : Thread} (found : m.lib.uthreads m.lib.currentThread = some thread) :
    Belongs (m.lib.currentThread ∈ m.lib.tids.unusedIds.keys) thread m.stack (frame' :: rest) := by
  have belongs := owned.running (not_between_cons chain here) thread found
  rw [chain] at belongs
  exact belongs.move signum unfinished

/-- A call about to return is not a termination. -/
theorem Owned.survives (owned : Owned m) (chain : m.chain = frame :: rest)
    (here : ¬ frame.point.Leaving) (past : ¬ frame.point.Early) :
    frame.signum ≠ .terminateSwitch := by
  obtain ⟨thread, found⟩ := owned.current
  have belongs := owned.running (not_between_cons chain here) thread found
  rw [chain] at belongs
  exact belongs.survives past

/-- A statement of a call before the switch or after the jump. -/
theorem Owned.advance (owned : Owned m) (chain : m.chain = frame :: rest)
    (here : ¬ frame.point.Leaving) (frame' : Frame) (signum : frame'.signum = frame.signum)
    (unfinished : frame'.signum = .terminateSwitch → frame'.point.Early)
    (calm : ¬ frame'.point.Leaving) (unsaved : frame'.point ≠ .saved)
    (parked : Parked (fun frame => frame.point.Switching) n) (chain' : n.chain = frame' :: rest)
    (lib : n.lib = m.lib) (env : n.env = m.env) (stack : n.stack = m.stack) : Owned n := by
  refine owned.of_chain parked lib env (fun between => ?_) (fun _ thread found => ?_) ?_
  · exact absurd between (not_between_cons chain' calm)
  · rw [stack, chain']
    exact owned.move chain here signum unfinished found
  · exact top_of_cons chain' unsaved

/-- A statement after the jump, which a termination never reaches. -/
theorem Owned.finish (owned : Owned m) (chain : m.chain = frame :: rest)
    (here : ¬ frame.point.Leaving) (past : ¬ frame.point.Early) (point : Point)
    (calm : ¬ point.Leaving) (unsaved : point ≠ .saved)
    (parked : Parked (fun frame => frame.point.Switching) n)
    (chain' : n.chain = ⟨frame.signum, point⟩ :: rest) (lib : n.lib = m.lib)
    (env : n.env = m.env) (stack : n.stack = m.stack) : Owned n :=
  have survives := owned.survives chain here past
  owned.advance chain here ⟨frame.signum, point⟩ rfl
    (fun isTermination => absurd isTermination survives) calm unsaved parked chain' lib env stack

/-- A statement between the choice of the next thread and the jump to it. -/
theorem Owned.stay (owned : Owned m) (between : m.Between) {frame' : Frame}
    (leaving : frame'.point.Leaving) (unsaved : frame'.point ≠ .saved)
    (parked : Parked (fun frame => frame.point.Switching) n) (chain' : n.chain = frame' :: rest)
    (lib : n.lib = m.lib) (env : n.env = m.env) : Owned n := by
  refine owned.of_chain parked lib env (fun _ => between) (fun here => ?_) ?_
  · exact absurd ⟨frame', rest, chain', leaving⟩ here
  · exact top_of_cons chain' unsaved

/-- `sigsetjmp`. -/
theorem Owned.save (owned : Owned m) (chain : m.chain = frame :: rest)
    (point : frame.point = .ignored) (parked : Parked (fun frame => frame.point.Switching) n)
    (isNext : n = { m with
      env := Function.update m.env m.lib.currentThread
        (some ⟨m.stack, { frame with point := .resumed } :: rest, m.mask⟩)
      chain := { frame with point := .saved } :: rest }) : Owned n := by
  have here : ¬ frame.point.Leaving := by simp [Point.Leaving, point]
  subst isNext
  refine ⟨parked, owned.pool_positive, owned.live_nonneg, owned.current, ?_, ?_, ?_⟩
  · intro _ thread found
    refine owned.move chain here ?_ ?_ found
    · rfl
    · exact fun _ => .inr (.inr (.inr rfl))
  · rintro i thread found (other | between)
    · obtain ⟨context, isContext, belongs⟩ := owned.waiting i thread found (.inl other)
      exact ⟨context, (Function.update_of_ne other _ _).trans isContext, belongs⟩
    · exact absurd between (not_between_cons rfl (by simp [Point.Leaving]))
  · rintro _ _ ⟨⟩ _
    exact ⟨m.mask, Function.update_self ..⟩

/-- The choice of the next thread. The thread that is left, unless it ends, waits
where it was saved. -/
theorem Owned.pick (owned : Owned m) (chain : m.chain = frame :: rest)
    (point : frame.point = .saved) (parked : Parked (fun frame => frame.point.Switching) n)
    {lib : State} (switched : switchThreads m.lib frame.signum = some lib)
    (isNext : n = { m with lib, chain := { frame with point := .picked } :: rest }) :
    Owned n := by
  have here : ¬ frame.point.Leaving := by simp [Point.Leaving, point]
  obtain ⟨next, ready, picked, -, isPicked, rfl⟩ := dispatch_cases switched
  subst isNext
  -- A thread that is live after the switch was live before it, and did not end itself.
  have after : ∀ i thread', ((m.lib.leave frame.signum).setThread next
      (some { picked with quantums := picked.quantums + 1 })).uthreads i = some thread' →
      ∃ thread, m.lib.uthreads i = some thread ∧ thread'.stack = thread.stack ∧
        (frame.signum = .terminateSwitch → i ≠ m.lib.currentThread) := by
    intro i thread' found
    by_cases same : i = next
    · subst same
      rw [State.setThread_self, Option.some.injEq] at found
      obtain ⟨isLive, stays⟩ := leave_find.mp isPicked
      exact ⟨picked, isLive, found ▸ rfl, stays⟩
    · rw [State.setThread_of_ne _ _ _ same] at found
      obtain ⟨isLive, stays⟩ := leave_find.mp found
      exact ⟨thread', isLive, rfl, stays⟩
  have pooled : ∀ i, i ∈ (m.lib.leave frame.signum).tids.unusedIds.keys ↔
      i ∈ m.lib.tids.unusedIds.keys := by
    intro i
    rw [leave_tids]
  refine ⟨parked, fun id unused => owned.pool_positive id ((pooled id).mp unused),
    fun i thread' found => ?_, ⟨_, State.setThread_self ..⟩,
    fun here => absurd ⟨_, _, rfl, .inl rfl⟩ here, fun i thread' found _ => ?_, ?_⟩
  · obtain ⟨thread, isLive, -⟩ := after i thread' found
    exact owned.live_nonneg i thread isLive
  · obtain ⟨thread, isLive, sameStack, stays⟩ := after i thread' found
    by_cases left : i = m.lib.currentThread
    · subst left
      obtain ⟨mask, isSaved⟩ := owned.saved frame rest chain point
      refine ⟨_, isSaved, Belongs.congr ?_ (pooled _) sameStack⟩
      refine owned.move chain here ?_ ?_ isLive
      · rfl
      · exact fun isTermination => absurd rfl (stays isTermination)
    · obtain ⟨context, isContext, belongs⟩ := owned.waiting i thread isLive (.inl left)
      exact ⟨context, isContext, belongs.congr (pooled i) sameStack⟩
  · rintro _ _ ⟨⟩
    exact Point.noConfusion

theorem Owned.tick (owned : Owned m) (chain : m.chain = frame :: rest)
    (parked : Parked (fun frame => frame.point.Switching) n)
    (ticked : Ticked m frame rest n) : Owned n := by
  have below := owned.parked.below chain
  cases ticked with
  | setIgnore point =>
      have here : frame.point.Early := .inl point
      exact owned.advance chain here.not_leaving ⟨frame.signum, .ignoreSet⟩ rfl
        (fun _ => .inr (.inl rfl)) (by simp [Point.Leaving]) Point.noConfusion parked rfl rfl rfl
        rfl
  | ignore point =>
      have here : frame.point.Early := .inr (.inl point)
      exact owned.advance chain here.not_leaving ⟨frame.signum, .ignored⟩ rfl
        (fun _ => .inr (.inr (.inl rfl))) (by simp [Point.Leaving]) Point.noConfusion parked rfl
        rfl rfl rfl
  | save point => exact owned.save chain point parked rfl
  | pick point switched => exact owned.pick chain point parked switched rfl
  | setHandler point =>
      exact owned.stay ⟨frame, rest, chain, .inl point⟩ (.inr (.inl rfl)) Point.noConfusion
        parked rfl rfl rfl
  | install point =>
      exact owned.stay ⟨frame, rest, chain, .inr (.inl point)⟩ (.inr (.inr (.inl rfl)))
        Point.noConfusion parked rfl rfl rfl
  | arm point =>
      exact owned.stay ⟨frame, rest, chain, .inr (.inr (.inl point))⟩ (.inr (.inr (.inr rfl)))
        Point.noConfusion parked rfl rfl rfl
  | @jump point context found =>
      have between : m.Between := ⟨frame, rest, chain, .inr (.inr (.inr point))⟩
      refine owned.of_chain parked rfl rfl (fun _ => between) ?_ ?_
      · intro _ thread isCurrent
        obtain ⟨context', found', belongs⟩ := owned.waiting _ thread isCurrent (.inr between)
        rw [found, Option.some.injEq] at found'
        exact found' ▸ belongs
      · refine top_of_mem fun frame member point => ?_
        exact owned.parked.contexts _ context found frame member (.inl point)
  | resetHandler point =>
      exact owned.finish chain (by simp [Point.Leaving, point]) (by simp [Point.Early, point])
        .handlerReset (by simp [Point.Leaving]) Point.noConfusion parked rfl rfl rfl rfl
  | reinstall point =>
      exact owned.finish chain (by simp [Point.Leaving, point]) (by simp [Point.Early, point])
        .reinstalled (by simp [Point.Leaving]) Point.noConfusion parked rfl rfl rfl rfl
  | rearm point =>
      exact owned.finish chain (by simp [Point.Leaving, point]) (by simp [Point.Early, point])
        .rearmed (by simp [Point.Leaving]) Point.noConfusion parked rfl rfl rfl rfl
  | leave point =>
      have here : ¬ frame.point.Leaving := by simp [Point.Leaving, point]
      have survives := owned.survives chain here (by simp [Point.Early, point])
      refine owned.of_chain parked rfl rfl (fun between => ?_) (fun _ thread found => ?_) ?_
      · refine absurd between (not_between_of_top (top_of_mem fun frame member leaving => ?_))
        exact below frame member (.inr leaving)
      · have belongs := owned.running (not_between_cons chain here) thread found
        rw [chain] at belongs
        exact (Belongs.cons_iff survives).mp belongs
      · exact top_of_mem fun frame member point => below frame member (.inl point)

end Tick

/-! ## Signals and calls -/

theorem Owned.signal (owned : Owned m) (outside : OutsideSwitch m .signal)
    (parked : Parked (fun frame => frame.point.Switching) n)
    (isNext : n = { m with mask := true, chain := ⟨.sigvtalrm, .entry⟩ :: m.chain }) :
    Owned n := by
  have here : ¬ m.Between := by
    rintro ⟨frame, rest, chain, leaving⟩
    exact outside frame rest chain (.inr leaving)
  subst isNext
  refine owned.of_chain parked rfl rfl (fun between => ?_) (fun _ thread found => ?_) ?_
  · exact absurd between (not_between_cons rfl (by simp [Point.Leaving]))
  · exact (Belongs.cons_iff (by decide)).mpr (owned.running here thread found)
  · rintro _ _ ⟨⟩
    exact Point.noConfusion

section Call

variable {lib : State} {ending : Ending}

/-- A thread that runs its own code is not terminating itself. -/
theorem Owned.not_pooled (owned : Owned m) (own : m.chain = []) :
    m.lib.currentThread ∉ m.lib.tids.unusedIds.keys := by
  have here : ¬ m.Between := not_between_nil own
  obtain ⟨thread, found⟩ := owned.current
  have belongs := owned.running here thread found
  rw [own] at belongs
  intro pooled
  obtain ⟨frame, member, -⟩ := belongs.dying.mp pooled
  exact absurd member List.not_mem_nil

/-- How a call other than a successful `uthread_spawn` changes the threads. -/
structure Threads (before after : State) : Prop where
  currentThread : after.currentThread = before.currentThread
  live : ∃ thread, after.uthreads after.currentThread = some thread
  find : ∀ i thread', after.uthreads i = some thread' →
    ∃ thread, before.uthreads i = some thread ∧ thread'.stack = thread.stack
  positive : ∀ id ∈ after.tids.unusedIds.keys, 0 < id
  pooled : ∀ i thread, after.uthreads i = some thread → i ≠ before.currentThread →
    (i ∈ after.tids.unusedIds.keys ↔ i ∈ before.tids.unusedIds.keys)

theorem Owned.of_threads (owned : Owned m) (own : m.chain = []) (threads : Threads m.lib lib)
    (parked : Parked (fun frame => frame.point.Switching) n) {mask : Bool}
    {chain : List Frame} (calm : ∀ frame ∈ chain, frame.point = .entry)
    (dying : m.lib.currentThread ∈ lib.tids.unusedIds.keys ↔
      ∃ frame ∈ chain, frame.signum = .terminateSwitch)
    (isNext : n = { m with lib, mask, chain }) : Owned n := by
  have here : ¬ m.Between := not_between_nil own
  subst isNext
  refine ⟨parked, threads.positive, fun i thread' found => ?_, threads.live, ?_, ?_, ?_⟩
  · obtain ⟨thread, isLive, -⟩ := threads.find i thread' found
    exact owned.live_nonneg i thread isLive
  · intro _ thread' found
    obtain ⟨thread, isLive, sameStack⟩ := threads.find _ thread' found
    rw [threads.currentThread] at isLive ⊢
    exact ⟨(owned.running here thread isLive).stack.trans sameStack.symm,
      fun frame member _ => .inl (calm frame member), dying⟩
  · rintro i thread' found (other | between)
    · obtain ⟨thread, isLive, sameStack⟩ := threads.find i thread' found
      have different : i ≠ m.lib.currentThread := threads.currentThread ▸ other
      obtain ⟨context, isContext, belongs⟩ := owned.waiting i thread isLive (.inl different)
      exact ⟨context, isContext, belongs.congr (threads.pooled i thread' found different) sameStack⟩
    · refine absurd between (not_between_of_top (top_of_mem fun frame member => ?_))
      simp [calm frame member, Point.Leaving]
  · intro frame rest isChain point
    have atEntry : frame.point = .entry := top_of_mem calm frame rest isChain
    cases atEntry.symm.trans point

variable {s : State}

theorem setThread_find {tid : Int} {thread thread' : Thread} (found : s.uthreads tid = some thread)
    (same : thread'.stack = thread.stack) : ∀ i after,
      (s.setThread tid (some thread')).uthreads i = some after →
        ∃ before, s.uthreads i = some before ∧ after.stack = before.stack := by
  intro i after isAfter
  by_cases isTid : i = tid
  · subst isTid
    rw [State.setThread_self, Option.some.injEq] at isAfter
    exact ⟨thread, found, isAfter ▸ same⟩
  · rw [State.setThread_of_ne _ _ _ isTid] at isAfter
    exact ⟨after, isAfter, rfl⟩

/-- A call that leaves the pool alone. -/
theorem Threads.of_tids (tids : lib.tids = s.tids)
    (currentThread : lib.currentThread = s.currentThread)
    (live : ∃ thread, lib.uthreads lib.currentThread = some thread)
    (find : ∀ i thread', lib.uthreads i = some thread' →
      ∃ thread, s.uthreads i = some thread ∧ thread'.stack = thread.stack)
    (positive : ∀ id ∈ s.tids.unusedIds.keys, 0 < id) : Threads s lib where
  currentThread := currentThread
  live := live
  find := find
  positive := by
    rw [tids]
    exact positive
  pooled := by
    rw [tids]
    exact fun _ _ _ _ => Iff.rfl

theorem setThread_live {tid : Int} (thread : Thread)
    (live : ∃ thread, s.uthreads s.currentThread = some thread) :
    ∃ thread', (s.setThread tid (some thread)).uthreads s.currentThread = some thread' := by
  by_cases same : s.currentThread = tid
  · exact ⟨thread, by rw [same, State.setThread_self]⟩
  · rw [State.setThread_of_ne _ _ _ same]
    exact live

theorem stack_wake_if (p : Prop) [Decidable p] (thread : Thread) :
    (if p then thread.wake else thread).stack = thread.stack := by
  split_ifs <;> rfl

theorem pool_released_positive {tid : Int} (thread : Thread) (notMain : tid ≠ mainThreadId)
    (nonneg : 0 ≤ tid) (positive : ∀ id ∈ s.tids.unusedIds.keys, 0 < id) :
    ∀ id ∈ (s.released tid thread).tids.unusedIds.keys, 0 < id := by
  intro id pooled
  rcases (mem_pool_released thread).mp pooled with rfl | old
  · exact lt_of_le_of_ne nonneg (Ne.symm notMain)
  · exact positive id old

/-- The current thread terminates itself. -/
theorem Threads.released {tid : Int} {thread : Thread} (isCurrent : s.currentThread = tid)
    (found : s.uthreads tid = some thread)
    (positive : ∀ id ∈ (s.released tid thread).tids.unusedIds.keys, 0 < id) :
    Threads s (s.released tid thread) where
  currentThread := rfl
  live := released_live (isCurrent ▸ found)
  find := by
    intro i after isAfter
    obtain ⟨before, isBefore, rfl⟩ := released_find.mp isAfter
    exact ⟨before, isBefore, stack_wake_if _ before⟩
  positive := positive
  pooled := by
    intro i after _ different
    refine (mem_pool_released thread).trans (or_iff_right ?_)
    exact fun isTid => different (isTid.trans isCurrent.symm)

/-- The current thread terminates another. -/
theorem Threads.terminated {tid : Int} {thread : Thread} (other : s.currentThread ≠ tid)
    (live : ∃ thread, s.uthreads s.currentThread = some thread)
    (positive : ∀ id ∈ (s.released tid thread).tids.unusedIds.keys, 0 < id) :
    Threads s (s.terminated tid thread) where
  currentThread := rfl
  live := by
    obtain ⟨current, isCurrent⟩ := live
    exact ⟨_, terminated_find.mpr ⟨other, current, isCurrent, rfl⟩⟩
  find := by
    intro i after isAfter
    obtain ⟨-, before, isBefore, rfl⟩ := terminated_find.mp isAfter
    exact ⟨before, isBefore, stack_wake_if _ before⟩
  positive := positive
  pooled := by
    intro i after isAfter _
    exact (mem_pool_released thread).trans (or_iff_right (terminated_find.mp isAfter).1)

/-- A call other than `uthread_spawn` puts the current thread's id into the pool
exactly if it goes on to terminate it. -/
theorem threads_of_call {call : Call} (notSpawn : call ≠ .spawn)
    (live : ∃ thread, s.uthreads s.currentThread = some thread)
    (positive : ∀ id ∈ s.tids.unusedIds.keys, 0 < id)
    (nonneg : ∀ i thread, s.uthreads i = some thread → 0 ≤ i)
    (own : s.currentThread ∉ s.tids.unusedIds.keys) (run : call.run s = some (lib, ending))
    (stays : ∀ code, ending ≠ .exited code) :
    Threads s lib ∧
      (s.currentThread ∈ lib.tids.unusedIds.keys ↔ ending = .switching .terminateSwitch) := by
  have unchanged : Threads s s :=
    .of_tids rfl rfl live (fun _ thread found => ⟨thread, found, rfl⟩) positive
  cases call with
  | spawn => exact absurd rfl notSpawn
  | terminate tid =>
      rcases uthreadTerminate_cases run with ⟨-, rfl, rfl⟩ | ⟨-, rfl⟩ |
        ⟨-, notMain, thread, found, -, ending⟩
      · exact ⟨unchanged, iff_of_false own (by simp)⟩
      · exact absurd rfl (stays 0)
      have poolPositive := pool_released_positive thread notMain (nonneg tid thread found) positive
      rcases ending with ⟨isCurrent, rfl, rfl⟩ | ⟨other, rfl, rfl⟩
      · exact ⟨.released isCurrent found poolPositive,
          iff_of_true ((mem_pool_released thread).mpr (.inl isCurrent)) rfl⟩
      · refine ⟨.terminated other live poolPositive, iff_of_false (fun pooled => ?_) (by simp)⟩
        exact ((mem_pool_released thread).mp pooled).elim other own
  | block tid =>
      rcases uthreadBlock_cases run with ⟨rfl, ⟨_, _, rfl⟩, -⟩ |
        ⟨-, thread, found, ⟨-, rfl, rfl⟩ | ⟨-, -, rfl, rfl⟩⟩
      · exact ⟨unchanged, iff_of_false own (by simp)⟩
      · exact ⟨.of_tids rfl rfl (setThread_live _ live) (setThread_find found rfl) positive,
          iff_of_false own (by simp)⟩
      · exact ⟨.of_tids rfl rfl (setThread_live _ live) (setThread_find found rfl) positive,
          iff_of_false own (by simp)⟩
  | resume tid =>
      obtain ⟨⟨_, _, rfl⟩, rfl | ⟨-, thread, found, -, ⟨-, rfl⟩ | ⟨-, rfl⟩⟩⟩ :=
        uthreadResume_cases run
      · exact ⟨unchanged, iff_of_false own (by simp)⟩
      · exact ⟨.of_tids rfl rfl (setThread_live _ live) (setThread_find found rfl) positive,
          iff_of_false own (by simp)⟩
      · exact ⟨.of_tids rfl rfl (setThread_live _ live) (setThread_find found rfl) positive,
          iff_of_false own (by simp)⟩
  | sync tid =>
      rcases uthreadSync_cases run with ⟨rfl, rfl⟩ |
        ⟨-, other, thread, target, found, isTarget, rfl, rfl⟩
      · exact ⟨unchanged, iff_of_false own (by simp)⟩
      · rw [syncedTo_eq other found isTarget]
        refine ⟨.of_tids rfl rfl ⟨_, syncedTo_find.mpr ⟨thread, found, rfl⟩⟩ ?_ positive,
          iff_of_false own (by simp)⟩
        intro i after isAfter
        obtain ⟨before, isBefore, rfl⟩ := syncedTo_find.mp isAfter
        exact ⟨before, isBefore, rfl⟩

/-- A new thread has a context of its own, whatever the id named before. -/
theorem Owned.spawned (owned : Owned m) (own : m.chain = []) {id : Int}
    (unused : id ∈ m.lib.tids.unusedIds.keys)
    (parked : Parked (fun frame => frame.point.Switching) n) {mask : Bool}
    (isNext : n = { m with
      lib := m.lib.spawned id
      mask
      env := Function.update m.env id (some (freshContext m.lib.nextStack)) }) : Owned n := by
  have here : ¬ m.Between := not_between_nil own
  have notCurrent : m.lib.currentThread ≠ id := fun same => owned.not_pooled own (same ▸ unused)
  have others : ∀ i, i ≠ id → (m.lib.spawned id).uthreads i = m.lib.uthreads i :=
    fun i other => m.lib.spawned_of_ne other
  have isNew := m.lib.spawned_self id
  have mem_pool : ∀ i, i ∈ (m.lib.spawned id).tids.unusedIds.keys ↔
      i ≠ id ∧ i ∈ m.lib.tids.unusedIds.keys := fun i => SortedMap.mem_keys_erase
  subst isNext
  refine ⟨parked, fun i pooled => ?_, fun i thread found => ?_, ?_, ?_, ?_, ?_⟩
  · exact owned.pool_positive i ((mem_pool i).mp pooled).2
  · by_cases same : i = id
    · exact (owned.pool_positive i (same ▸ unused)).le
    · exact owned.live_nonneg i thread ((others i same).symm.trans found)
  · obtain ⟨thread, found⟩ := owned.current
    exact ⟨thread, (others _ notCurrent).trans found⟩
  · intro _ thread found
    have belongs := owned.running here thread ((others _ notCurrent).symm.trans found)
    exact belongs.congr ((mem_pool _).trans (and_iff_right notCurrent)) rfl
  · rintro i thread found (other | between)
    · by_cases same : i = id
      · subst same
        rw [isNew, Option.some.injEq] at found
        refine ⟨freshContext m.lib.nextStack, Function.update_self .., found ▸ rfl,
          fun _ member => absurd member List.not_mem_nil, iff_of_false ?_ ?_⟩
        · exact fun pooled => ((mem_pool i).mp pooled).1 rfl
        · rintro ⟨frame, member, -⟩
          exact absurd member List.not_mem_nil
      · obtain ⟨context, isContext, belongs⟩ :=
          owned.waiting i thread ((others i same).symm.trans found) (.inl other)
        exact ⟨context, (Function.update_of_ne same ..).trans isContext,
          belongs.congr ((mem_pool i).trans (and_iff_right same)) rfl⟩
    · exact absurd between here
  · intro frame rest chain
    cases own.symm.trans chain

theorem Owned.call (owned : Owned m) (own : m.chain = []) {call : Call}
    (parked : Parked (fun frame => frame.point.Switching) n)
    (called : m.call call = some n) : Owned n := by
  have notPooled := owned.not_pooled own
  have noFrame : ∀ frame ∈ ([] : List Frame), frame.point = .entry :=
    fun _ member => absurd member List.not_mem_nil
  have noTermination : ¬ ∃ frame ∈ ([] : List Frame), frame.signum = .terminateSwitch := by
    rintro ⟨frame, member, -⟩
    exact absurd member List.not_mem_nil
  by_cases isSpawn : call = .spawn
  · subst isSpawn
    rcases call_cases called with ⟨lib, value, masked, run, isNext⟩ | ⟨lib, signum, run, -⟩
    · rcases uthreadSpawn_cases owned.pool_positive (Option.some.inj run) with
        ⟨-, rfl, ending⟩ | ⟨id, unused, -, rfl, ending⟩
      · cases ending
        have same : n = { m with mask := false, chain := [] } := isNext.trans (by simp [own])
        exact owned.of_threads own (.of_tids rfl rfl owned.current
          (fun _ thread found => ⟨thread, found, rfl⟩) owned.pool_positive) parked noFrame
          (iff_of_false notPooled noTermination) same
      · have positive := owned.pool_positive id unused
        cases ending
        rw [if_pos ⟨rfl, by omega⟩] at isNext
        exact owned.spawned own unused parked isNext
    · rcases uthreadSpawn_cases owned.pool_positive (Option.some.inj run) with
        ⟨-, -, ending⟩ | ⟨id, -, -, -, ending⟩
      · cases ending
      · cases ending
  · rcases call_cases called with ⟨lib, value, masked, run, isNext⟩ | ⟨lib, signum, run, isNext⟩
    · obtain ⟨threads, pooled⟩ := threads_of_call isSpawn owned.current owned.pool_positive
        owned.live_nonneg notPooled run fun _ => Ending.noConfusion
      have same : n = { m with lib, mask := masked, chain := [] } :=
        isNext.trans (by simp [isSpawn, own])
      exact owned.of_threads own threads parked noFrame
        (pooled.trans (iff_of_false Ending.noConfusion noTermination)) same
    · obtain ⟨threads, pooled⟩ := threads_of_call isSpawn owned.current owned.pool_positive
        owned.live_nonneg notPooled run fun _ => Ending.noConfusion
      have direct : ∀ frame ∈ [(⟨signum, .entry⟩ : Frame)], frame.point = .entry := by simp
      exact owned.of_threads own threads parked direct (pooled.trans (by simp)) isNext

end Call

theorem Owned.next {event : MachineEvent} (owned : Owned m) (outside : OutsideSwitch m event)
    (step : m.next event = some n) : Owned n := by
  have parked : Parked (fun frame => frame.point.Switching) n := by
    refine owned.parked.next (fun signum => ?_) (fun isSignal frame rest chain => ?_) step
    · simp [Point.Switching, Point.Leaving]
    · subst isSignal
      exact outside frame rest chain
  rcases next_cases step with ⟨call, rfl, own, called⟩ | ⟨rfl, -, -, isNext⟩ |
    ⟨rfl, frame, rest, chain, ticked⟩
  · exact owned.call own parked called
  · exact owned.signal outside parked isNext
  · exact owned.tick chain parked ticked

/-- **Saved contexts belong to their owners** in every run without a signal
between `sigsetjmp` and `siglongjmp`. -/
theorem contexts_own (reachable : (machine.restrict OutsideSwitch).Reachable m) :
    m.OwnContexts := by
  have owned : Owned m := by
    refine reachable.invariant (P := Owned) ?_ ?_
    · rintro _ rfl
      exact owned_initial
    · rintro _ _ _ _ owned ⟨outside, step⟩
      exact owned.next outside step
  exact owned.ownContexts

/-- A new thread is dispatched, up to the jump to it. -/
def firstDispatchEvents : List MachineEvent :=
  [.call .spawn, .signal] ++ List.replicate 7 .tick

theorem contexts_own_firstDispatch : ∃ m thread context,
    exec Machine.next initialMachine firstDispatchEvents = some m ∧ m.lib.currentThread = 1 ∧
      m.stack = 0 ∧ m.lib.uthreads 1 = some thread ∧ m.env 1 = some context ∧
      context.stack = thread.stack := by
  have result : (exec Machine.next initialMachine firstDispatchEvents).map
      (fun m => (m.lib.currentThread, m.stack, m.chain.head?.map Frame.point)) =
        some (1, 0, some .armed) := by decide +kernel
  obtain ⟨m, run, facts⟩ := Option.map_eq_some_iff.mp result
  simp only [Prod.mk.injEq] at facts
  obtain ⟨current, stack, top⟩ := facts
  obtain ⟨frame, isTop, point⟩ := Option.map_eq_some_iff.mp top
  obtain ⟨rest, chain⟩ := List.head?_eq_some_iff.mp isTop
  have outside : StepsMeet Machine.next OutsideSwitch initialMachine firstDispatchEvents := by
    refine (stepsMeet_cons rfl).mpr ⟨trivial, (stepsMeet_cons rfl).mpr ⟨?_, ?_⟩⟩
    · intro frame rest chain
      cases chain
    · exact stepsMeet_of_forall (by simp [OutsideSwitch]) _
  obtain ⟨thread, context, found, isContext, same⟩ :=
    (contexts_own (exec_restrict_reachable (.init rfl) outside run)).jumps frame rest chain point
  exact ⟨m, thread, context, run, current, stack, current ▸ found, current ▸ isContext, same⟩

/-- A new thread is dispatched and blocks itself. A signal is delivered after
the handler is installed for the main thread. -/
def lateSignalEvents : List MachineEvent :=
  [.call .spawn, .signal] ++ List.replicate 8 .tick ++ [.call (.block 1)] ++
    List.replicate 6 .tick ++ [.signal, .tick, .tick]

/-- **A signal before the jump saves the wrong stack.** `sigsetjmp` saves the
context of the main thread on the stack of thread 1. -/
theorem signal_before_jump_saves_wrong_stack : ∃ m,
    exec Machine.next initialMachine lateSignalEvents = some m ∧ m.lib.currentThread = 0 ∧
      m.stack = 1 ∧ ¬ m.OwnContexts := by
  have result : (exec Machine.next initialMachine lateSignalEvents).map
      (fun m => (m.lib.currentThread, m.stack, m.chain.head?.map Frame.point,
        (m.lib.uthreads 0).map Thread.stack)) = some (0, 1, some .ignored, some 0) := by
    decide +kernel
  obtain ⟨m, run, facts⟩ := Option.map_eq_some_iff.mp result
  simp only [Prod.mk.injEq] at facts
  obtain ⟨current, stack, top, main⟩ := facts
  obtain ⟨frame, isTop, point⟩ := Option.map_eq_some_iff.mp top
  obtain ⟨rest, chain⟩ := List.head?_eq_some_iff.mp isTop
  refine ⟨m, run, current, stack, fun own => ?_⟩
  obtain ⟨thread, found, same⟩ := own.saves frame rest chain point
  rw [current] at found
  rw [found, Option.map_some, Option.some.injEq] at main
  omega

end Os2018.Uthreads
