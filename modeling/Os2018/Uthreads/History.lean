import Os2018.Library.Cells
import Os2018.Uthreads.Refinement

/-!
# What the calls so far say of a thread

An id of the pool is a cell: `uthread_spawn` writes it when it hands it out, and
`uthread_terminate` empties it. What it holds in between is the flag that
`uthread_block` sets and `uthread_resume` clears. So the calls of a run, whoever
made them and however the quanta fell, say whether the id names a thread and
whether that thread is blocked (`thread_history`). As in `refines_scheduler`, no
call terminates a thread that waits for another.
-/

set_option autoImplicit false

namespace Os2018.Uthreads

open Transition

variable {s t : State} {event : Event} {events : List Event} {tid : Int} {ending : Ending}

/-! ## The flag of an id -/

/-- `blocked_directly` of the thread under an id, if there is one. -/
def State.flag (s : State) (tid : Int) : Option Bool := (s.uthreads tid).map Thread.blockedDirectly

theorem flag_setThread (s : State) (i : Int) (thread : Thread) :
    (s.setThread i (some thread)).flag tid =
      if tid = i then some thread.blockedDirectly else s.flag tid := by
  by_cases same : tid = i
  · simp [State.flag, same]
  · simp [State.flag, same]

theorem flag_deleteThread (s : State) (i : Int) :
    (s.deleteThread i).flag tid = if tid = i then none else s.flag tid := by
  by_cases same : tid = i
  · simp [State.flag, State.deleteThread, same]
  · simp [State.flag, State.deleteThread, same]

theorem flag_spawned (s : State) (id : Int) :
    (s.spawned id).flag tid = if tid = id then some false else s.flag tid := by
  by_cases same : tid = id
  · rw [if_pos same, State.flag, same, s.spawned_self]
    rfl
  · rw [if_neg same, State.flag, s.spawned_of_ne same, State.flag]

theorem flag_released (s : State) (i : Int) (thread : Thread) :
    (s.released i thread).flag tid = s.flag tid := by
  by_cases member : tid ∈ thread.syncDependencies
  · simp [State.flag, State.released, State.wakeAll, member, Function.comp_def, Thread.wake]
  · simp [State.flag, State.released, State.wakeAll, member]

theorem flag_syncedTo (s : State) (waiter target : Int) :
    (s.syncedTo waiter target).flag tid = s.flag tid := by
  simp [State.flag, State.syncedTo, Function.comp_def, Thread.tied]

theorem flag_switch {signum : Signum} (switched : switchThreads s signum = some t) :
    t.flag tid =
      if signum = .terminateSwitch ∧ tid = s.currentThread then none else s.flag tid := by
  have left : (s.leave signum).flag tid =
      if signum = .terminateSwitch ∧ tid = s.currentThread then none else s.flag tid := by
    cases signum with
    | sigvtalrm => rfl
    | terminateSwitch =>
        refine (flag_deleteThread s s.currentThread).trans ?_
        simp
    | blockSwitch => rfl
  obtain ⟨next, ready, thread, -, found, rfl⟩ := dispatch_cases switched
  rw [← left]
  refine (flag_setThread (s.leave signum) next _).trans ?_
  by_cases same : tid = next
  · rw [if_pos same, State.flag, same, found]
    rfl
  · rw [if_neg same]

theorem flag_switch_of_ne {signum : Signum} (stays : signum ≠ .terminateSwitch)
    (switched : switchThreads s signum = some t) : t.flag tid = s.flag tid :=
  (flag_switch switched).trans (if_neg fun ends => stays ends.1)

theorem flag_setBlocked {i : Int} {thread : Thread} (found : s.uthreads i = some thread)
    (blocked : Bool) :
    (s.setThread i (some { thread with blockedDirectly := blocked })).flag tid =
      if i = tid then (s.flag tid).bind fun _ => some blocked else s.flag tid := by
  rw [flag_setThread]
  by_cases same : i = tid
  · rw [if_pos same.symm, if_pos same, State.flag, ← same, found]
    rfl
  · rw [if_neg (Ne.symm same), if_neg same]

/-! ## The flag after a step -/

/-- What a step leaves of the flag. -/
def flagAfter (tid : Int) (event : Event) (held : Bool) : Option Bool :=
  match event with
  | .call (.terminate i) => if i = tid then none else some held
  | .call (.block i) => if i = tid then some true else some held
  | .call (.resume i) => if i = tid then some false else some held
  | _ => some held

theorem bind_ite {α : Type*} {c : Prop} [Decidable c] (value : Option α) (change : α → Option α) :
    (value.bind fun a => if c then change a else some a) =
      if c then value.bind change else value := by
  split_ifs
  · rfl
  · exact Option.bind_fun_some _

theorem Running.flag_of_invalid (running : Running s) (invalid : s.tids.isValid tid = false) :
    s.flag tid = none := by
  rw [State.flag, Option.map_eq_none_iff, Option.eq_none_iff_forall_ne_some]
  intro thread found
  rw [running.isValid_of_live found] at invalid
  cases invalid

theorem Running.flag_terminate (running : Running s) {i : Int}
    (step : s.next (.call (.terminate i)) = some t) :
    t.flag tid = if i = tid then (s.flag tid).bind fun _ => none else s.flag tid := by
  have deleted : ∀ thread, ((s.released i thread).deleteThread i).flag tid =
      if i = tid then (s.flag tid).bind fun _ => none else s.flag tid := by
    intro thread
    rw [flag_deleteThread, flag_released, Option.bind_fun_none]
    exact if_congr eq_comm rfl rfl
  rcases next_call_cases step with ⟨_, _, run⟩ | ⟨u, signum, run, switched⟩
  · rcases uthreadTerminate_cases run with ⟨invalid, rfl, -⟩ | ⟨-, impossible⟩ |
      ⟨-, -, thread, -, -, ⟨-, -, impossible⟩ | ⟨-, rfl, -⟩⟩
    · by_cases same : i = tid
      · rw [if_pos same, ← same, running.flag_of_invalid invalid, Option.bind_none]
      · rw [if_neg same]
    · cases impossible
    · cases impossible
    · exact deleted thread
  · rcases uthreadTerminate_cases run with ⟨-, -, impossible⟩ | ⟨-, impossible⟩ |
      ⟨-, -, thread, -, -, ⟨isCurrent, rfl, isSwitch⟩ | ⟨-, -, impossible⟩⟩
    · cases impossible
    · cases impossible
    · cases isSwitch
      rw [← deleted thread, flag_switch switched, flag_deleteThread, ← isCurrent]
      simp [State.released, State.wakeAll, State.removeReady]
    · cases impossible

theorem Running.flag_block (running : Running s) {i : Int} (notMain : tid ≠ mainThreadId)
    (step : s.next (.call (.block i)) = some t) :
    t.flag tid = if i = tid then (s.flag tid).bind fun _ => some true else s.flag tid := by
  rcases next_call_cases step with ⟨_, _, run⟩ | ⟨u, signum, run, switched⟩
  · rcases uthreadBlock_cases run with ⟨rfl, -, rejected⟩ |
      ⟨-, thread, found, ⟨-, -, impossible⟩ | ⟨-, -, rfl, -⟩⟩
    · by_cases same : i = tid
      · subst same
        rw [if_pos rfl]
        rcases rejected with invalid | isMain | ⟨thread, found, held⟩
        · rw [running.flag_of_invalid invalid]
          rfl
        · exact absurd isMain notMain
        · rw [State.flag, found, Option.map_some, held]
          rfl
      · rw [if_neg same]
    · cases impossible
    · exact flag_setBlocked found true
  · rcases uthreadBlock_cases run with ⟨-, ⟨_, _, impossible⟩, -⟩ |
      ⟨-, thread, found, ⟨-, rfl, isSwitch⟩ | ⟨-, -, -, impossible⟩⟩
    · cases impossible
    · cases isSwitch
      exact (flag_switch_of_ne (by decide) switched).trans (flag_setBlocked found true)
    · cases impossible

theorem Running.flag_resume (running : Running s) {i : Int}
    (step : s.next (.call (.resume i)) = some t) :
    t.flag tid = if i = tid then (s.flag tid).bind fun _ => some false else s.flag tid := by
  obtain ⟨ending, run⟩ : ∃ ending, uthreadResume s i = some (t, ending) := by
    rcases next_call_cases step with ⟨_, _, run⟩ | ⟨u, signum, run, -⟩
    · exact ⟨_, run⟩
    · obtain ⟨⟨_, _, impossible⟩, -⟩ := uthreadResume_cases run
      cases impossible
  obtain ⟨-, rfl | ⟨-, thread, found, -, ⟨-, rfl⟩ | ⟨-, rfl⟩⟩⟩ := uthreadResume_cases run
  · by_cases same : i = tid
    · subst same
      rw [if_pos rfl]
      cases found : t.uthreads i with
      | none => simp [State.flag, found]
      | some thread =>
          rw [State.flag, found, Option.map_some, running.resume_unchanged found run]
          rfl
    · rw [if_neg same]
  · exact flag_setBlocked found false
  · exact flag_setBlocked found false

theorem flag_sync {i : Int} (step : s.next (.call (.sync i)) = some t) :
    t.flag tid = s.flag tid := by
  rcases next_call_cases step with ⟨_, _, run⟩ | ⟨u, signum, run, switched⟩
  · rcases uthreadSync_cases run with ⟨rfl, -⟩ | ⟨-, -, _, _, -, -, -, impossible⟩
    · rfl
    · cases impossible
  · rcases uthreadSync_cases run with ⟨-, impossible⟩ |
      ⟨-, other, thread, target, found, isTarget, rfl, isSwitch⟩
    · cases impossible
    · cases isSwitch
      rw [flag_switch_of_ne (by decide) switched, syncedTo_eq other found isTarget, flag_syncedTo]

/-- A call of `uthread_spawn` that returns the id writes it, any other leaves
it. -/
theorem Running.flag_spawn (running : Running s) (step : s.next (.call .spawn) = some t) :
    ((uthreadSpawn s).2 = .returned tid false ∧ 0 < tid ∧ s.flag tid = none ∧
        t.flag tid = some false) ∨
      ((uthreadSpawn s).2 = .returned tid false → tid = -1) ∧ t.flag tid = s.flag tid := by
  obtain ⟨u, ending, run⟩ : ∃ u ending, uthreadSpawn s = (u, ending) := ⟨_, _, rfl⟩
  have returns : ∀ value, ending = .returned value false → t = u := by
    rintro value rfl
    rw [State.next, Call.run, run] at step
    exact (Option.some.inj step).symm
  rcases uthreadSpawn_cases running.positive run with ⟨-, rfl, rfl⟩ | ⟨id, unused, -, rfl, rfl⟩
  · obtain rfl := returns _ rfl
    refine .inr ⟨fun isId => ?_, rfl⟩
    rw [run] at isId
    injection isId with same
    exact same.symm
  · obtain rfl := returns _ rfl
    obtain ⟨positive, -, free⟩ := (running.pool id).mp unused
    rw [run, flag_spawned]
    by_cases same : tid = id
    · subst same
      exact .inl ⟨rfl, positive, by rw [State.flag, free]; rfl, if_pos rfl⟩
    · rw [if_neg same]
      refine .inr ⟨fun isId => ?_, rfl⟩
      injection isId with isTid
      exact absurd isTid.symm same

/-! ## Ids as cells -/

/-- The last of the calls of `uthread_block` and `uthread_resume` on the thread
blocks it. -/
def BlockedBy (tid : Int) (events : List Event) : Prop :=
  (events.filter fun event => event = .call (.block tid) ∨ event = .call (.resume tid)).getLast? =
    some (.call (.block tid))

instance (tid : Int) (events : List Event) : Decidable (BlockedBy tid events) :=
  inferInstanceAs (Decidable (_ = _))

theorem blockedBy_concat (tid : Int) (events : List Event) (event : Event) :
    BlockedBy tid (events ++ [event]) ↔
      event = .call (.block tid) ∨ event ≠ .call (.resume tid) ∧ BlockedBy tid events := by
  rw [BlockedBy, List.filter_append]
  by_cases concerns : event = .call (.block tid) ∨ event = .call (.resume tid)
  · rw [List.filter_cons_of_pos (by simpa using concerns), List.filter_nil, List.getLast?_concat,
      Option.some.injEq]
    constructor
    · exact Or.inl
    · rintro (isBlock | ⟨notResume, -⟩)
      · exact isBlock
      · exact concerns.resolve_right notResume
  · rw [List.filter_cons_of_neg (by simpa using concerns), List.filter_nil, List.append_nil]
    rw [not_or] at concerns
    exact ⟨fun blocked => .inr ⟨concerns.2, blocked⟩, fun either =>
      (either.resolve_left concerns.1).2⟩

/-- A step leaves of the flag what the calls with that step say. -/
theorem flagAfter_blockedBy (tid : Int) (events : List Event) (event : Event) :
    flagAfter tid event (decide (BlockedBy tid events)) =
      if event = .call (.terminate tid) then none
      else some (decide (BlockedBy tid (events ++ [event]))) := by
  have concat := blockedBy_concat tid events event
  cases event with
  | timer => simpa [flagAfter] using concat.symm
  | call call =>
      cases call with
      | terminate i =>
          by_cases same : i = tid
          · simp [flagAfter, same]
          · simpa [flagAfter, same] using concat.symm
      | block i =>
          by_cases same : i = tid
          · simpa [flagAfter, same] using concat
          · simpa [flagAfter, same] using concat.symm
      | resume i =>
          by_cases same : i = tid
          · simpa [flagAfter, same] using concat
          · simpa [flagAfter, same] using concat.symm
      | spawn => simpa [flagAfter] using concat.symm
      | sync i => simpa [flagAfter] using concat.symm

theorem changeAll_flagAfter (tid : Int) (events : List Event) :
    changeAll (flagAfter tid) false events =
      if .call (.terminate tid) ∈ events then none else some (decide (BlockedBy tid events)) := by
  induction events using List.reverseRecOn with
  | nil => rfl
  | append_singleton events event ih =>
      rw [changeAll_concat, ih]
      by_cases terminated : .call (.terminate tid) ∈ events
      · rw [if_pos terminated, if_pos (List.mem_append_left _ terminated), Option.bind_none]
      · rw [if_neg terminated, Option.bind_some, flagAfter_blockedBy]
        exact if_congr (by simp [terminated, eq_comm]) rfl rfl

open Classical in
/-- The flag of an id, in runs that terminate no waiting thread. -/
theorem flag_cell (positive : 0 < tid) :
    Cell (guarded State.next SparesWaiting) Running (fun s => s.flag tid)
      (fun s event held => event = .call .spawn ∧ (uthreadSpawn s).2 = .returned tid false ∧
        held = false)
      (flagAfter tid) where
  written := by
    rintro s event t held running step ⟨rfl, isId, rfl⟩
    rcases running.flag_spawn (guarded_eq_some.mp step).2 with ⟨-, -, empty, written⟩ | ⟨failed, -⟩
    · exact ⟨empty, written⟩
    · have := failed isId
      omega
  changed := by
    intro s event t running step noWrite
    obtain ⟨-, step⟩ := guarded_eq_some.mp step
    cases event with
    | timer =>
        exact (flag_switch_of_ne (by decide) step).trans (Option.bind_fun_some _).symm
    | call call =>
        have notMain : tid ≠ mainThreadId := Int.ne_of_gt positive
        cases call with
        | spawn =>
            rcases running.flag_spawn step with ⟨isId, -⟩ | ⟨-, same⟩
            · exact absurd ⟨rfl, isId, rfl⟩ (noWrite false)
            · exact same.trans (Option.bind_fun_some _).symm
        | terminate i => exact (running.flag_terminate step).trans (bind_ite _ _).symm
        | block i => exact (running.flag_block notMain step).trans (bind_ite _ _).symm
        | resume i => exact (running.flag_resume step).trans (bind_ite _ _).symm
        | sync i => exact (flag_sync step).trans (Option.bind_fun_some _).symm

/-- **What the calls so far say of a thread.** In a run that terminates no
waiting thread, an id names a thread exactly if a call of `uthread_spawn` handed
it out and it was not terminated since; and the thread is blocked directly
exactly if the last call of `uthread_block` or `uthread_resume` on it since then
blocks it. -/
theorem thread_history (run : exec State.next uthreadInit events = some s)
    (spares : StepsMeet State.next SparesWaiting uthreadInit events) (positive : 0 < tid)
    (held : Bool) :
    (∃ thread, s.uthreads tid = some thread ∧ thread.blockedDirectly = held) ↔
      ∃ before later u, events = before ++ .call .spawn :: later ∧
        exec State.next uthreadInit before = some u ∧
        (uthreadSpawn u).2 = .returned tid false ∧ .call (.terminate tid) ∉ later ∧
          (held = true ↔ BlockedBy tid later) := by
  classical
  have flag : (∃ thread, s.uthreads tid = some thread ∧ thread.blockedDirectly = held) ↔
      s.flag tid = some held := Option.map_eq_some_iff.symm
  have keep : ∀ s event t, Running s → guarded State.next SparesWaiting s event = some t →
      Running t := fun s event t running step =>
    running.next (guarded_eq_some.mp step).1 (guarded_eq_some.mp step).2
  have empty : uthreadInit.flag tid = none := by
    have other : tid ≠ mainThreadId := Int.ne_of_gt positive
    simp [State.flag, uthreadInit, other]
  have left : ∀ later, changeAll (flagAfter tid) false later = some held ↔
      .call (.terminate tid) ∉ later ∧ (held = true ↔ BlockedBy tid later) := by
    intro later
    rw [changeAll_flagAfter]
    by_cases terminated : .call (.terminate tid) ∈ later
    · simp [terminated]
    · rw [if_neg terminated, Option.some.injEq, and_iff_right terminated]
      cases held <;> simp
  rw [flag, (flag_cell positive).history keep running_init empty
    (exec_guarded_of_stepsMeet run spares)]
  constructor
  · rintro ⟨before, event, later, u, first, split, run', ⟨rfl, isId, rfl⟩, stays⟩
    exact ⟨before, later, u, split, (exec_guarded run').1, isId, (left later).mp stays⟩
  · rintro ⟨before, later, u, rfl, run', isId, stays⟩
    have meets := ((stepsMeet_append run').mp spares).1
    exact ⟨before, _, later, u, false, rfl, exec_guarded_of_stepsMeet run' meets,
      ⟨rfl, isId, rfl⟩, (left later).mpr stays⟩

/-- Thread 1 is blocked, resumed and blocked again. -/
theorem thread_history_blocked : ∃ s,
    exec State.next uthreadInit [.call .spawn, .call (.block 1), .call (.resume 1),
      .call (.block 1), .call .spawn] = some s ∧
      ∃ thread, s.uthreads 1 = some thread ∧ thread.blockedDirectly = true := by
  obtain ⟨s, run⟩ : ∃ s, exec State.next uthreadInit [.call .spawn, .call (.block 1),
      .call (.resume 1), .call (.block 1), .call .spawn] = some s :=
    Option.isSome_iff_exists.mp (by decide +kernel)
  refine ⟨s, run, (thread_history run (stepsMeet_of_forall (by simp [SparesWaiting]) _)
    (by decide) true).mpr ⟨[], [.call (.block 1), .call (.resume 1), .call (.block 1),
      .call .spawn], uthreadInit, rfl, rfl, by decide +kernel, by decide, by decide⟩⟩

end Os2018.Uthreads
