import Os2018.Uthreads.Operations

/-!
# `switch_threads`, one statement at a time

The processor runs on one stack, on which calls of `switch_threads` are in
progress above the code of a thread. `SIGVTALRM` starts such a call wherever it
is unblocked and its handler is `switch_threads`; `uthread_block`,
`uthread_sync` and `uthread_terminate` start one directly, with the signal
unblocked. Every statement is a step of its own, and so are the two jumps.

The handler is changed in two statements: one writes it to the global `sa`, and
`sigaction` installs what `sa` holds by then. A call that comes in between
leaves its own value there.

`sigsetjmp` saves the stack with the calls in progress on it and the signal
mask, and `siglongjmp` goes on from there. A stack has the number of its
allocation; the main thread runs on the stack of the process, which takes the
number of the one allocated for it.
-/

set_option autoImplicit false

namespace Os2018.Uthreads

open Transition

/-! ## Machine states -/

/-- Where a call of `switch_threads` stands. -/
inductive Point where
  /-- Before `SIG_IGN` is written to `sa`. -/
  | entry
  /-- Before the first `sigaction`. -/
  | ignoreSet
  /-- Before `sigsetjmp`. -/
  | ignored
  /-- `sigsetjmp` has returned 0. -/
  | saved
  /-- The next thread is the current one; before the handler is written to `sa`. -/
  | picked
  /-- Before the `sigaction` that follows. -/
  | handlerSet
  /-- Before the timer is set. -/
  | installed
  /-- Before `siglongjmp`. -/
  | armed
  /-- `sigsetjmp` has returned 1; before the handler is written to `sa`. -/
  | resumed
  /-- Before the `sigaction` that follows. -/
  | handlerReset
  /-- Before the timer is set. -/
  | reinstalled
  /-- Before the return. -/
  | rearmed
  deriving DecidableEq, Repr

/-- Before the choice of the next thread. -/
def Point.Early (point : Point) : Prop :=
  point = .entry ∨ point = .ignoreSet ∨ point = .ignored ∨ point = .saved

instance (point : Point) : Decidable point.Early := inferInstanceAs (Decidable (_ ∨ _))

/-- The next thread is picked, but not on the processor yet. -/
def Point.Leaving (point : Point) : Prop :=
  point = .picked ∨ point = .handlerSet ∨ point = .installed ∨ point = .armed

/-- Between the `sigaction` that ignores the signal and the one that installs the
handler. -/
def Point.Ignoring (point : Point) : Prop :=
  point = .ignored ∨ point = .saved ∨ point = .picked ∨ point = .handlerSet

theorem Point.Early.not_leaving {point : Point} (early : point.Early) : ¬ point.Leaving := by
  rcases early with rfl | rfl | rfl | rfl <;> simp [Leaving]

/-- A call of `switch_threads` in progress. A call with `SIGVTALRM` is the
signal's handler. -/
structure Frame where
  signum : Signum
  point : Point
  deriving DecidableEq, Repr

/-- What `sigsetjmp` saves. -/
structure Context where
  stack : Nat
  chain : List Frame
  mask : Bool
  deriving DecidableEq, Repr

inductive Handler where
  /-- `SIG_IGN`. -/
  | ignore
  | switchThreads
  deriving DecidableEq, Repr

/-- The library, the state of the signal, and the processor: the stack it runs
on with the calls in progress, the innermost first. Of the global `sa` it is
`sa.sa_handler`. -/
structure Machine where
  lib : State
  sa : Handler
  handler : Handler
  armed : Bool
  mask : Bool
  env : Int → Option Context
  stack : Nat
  chain : List Frame

/-- The main thread runs its own code. -/
def initialMachine : Machine where
  lib := uthreadInit
  sa := .switchThreads
  handler := .switchThreads
  armed := true
  mask := false
  env := fun _ => none
  stack := 0
  chain := []

/-! ## Steps -/

inductive MachineEvent where
  /-- The code of the running thread calls a function of the interface. -/
  | call (call : Call)
  /-- `SIGVTALRM` is delivered. -/
  | signal
  /-- The innermost call of `switch_threads` executes its next statement. -/
  | tick
  deriving DecidableEq, Repr

/-- The context that `uthread_spawn` prepares for a new thread. -/
def freshContext (stack : Nat) : Context := ⟨stack, [], false⟩

/-- A call from a thread's own code. Only `uthread_spawn` changes `env`. -/
def Machine.call (m : Machine) (call : Call) : Option Machine :=
  match call.run m.lib with
  | some (lib, .returned value masked) =>
      some { m with
        lib
        mask := masked
        env :=
          if call = .spawn ∧ value ≠ -1 then
            Function.update m.env value (some (freshContext m.lib.nextStack))
          else m.env }
  | some (lib, .switching signum) => some { m with lib, mask := false, chain := [⟨signum, .entry⟩] }
  | some (_, .exited _) => none
  | none => none

/-- The next statement of the innermost call of `switch_threads`. -/
def Machine.tick (m : Machine) (frame : Frame) (rest : List Frame) : Option Machine :=
  match frame.point with
  | .entry => some { m with sa := .ignore, chain := { frame with point := .ignoreSet } :: rest }
  | .ignoreSet => some { m with handler := m.sa, chain := { frame with point := .ignored } :: rest }
  | .ignored =>
      some { m with
        env := Function.update m.env m.lib.currentThread
          (some ⟨m.stack, { frame with point := .resumed } :: rest, m.mask⟩)
        chain := { frame with point := .saved } :: rest }
  | .saved =>
      (switchThreads m.lib frame.signum).map fun lib =>
        { m with lib, chain := { frame with point := .picked } :: rest }
  | .picked =>
      some { m with sa := .switchThreads, chain := { frame with point := .handlerSet } :: rest }
  | .handlerSet =>
      some { m with handler := m.sa, chain := { frame with point := .installed } :: rest }
  | .installed => some { m with armed := true, chain := { frame with point := .armed } :: rest }
  | .armed =>
      (m.env m.lib.currentThread).map fun context =>
        { m with stack := context.stack, chain := context.chain, mask := context.mask }
  | .resumed =>
      some { m with sa := .switchThreads, chain := { frame with point := .handlerReset } :: rest }
  | .handlerReset =>
      some { m with handler := m.sa, chain := { frame with point := .reinstalled } :: rest }
  | .reinstalled => some { m with armed := true, chain := { frame with point := .rearmed } :: rest }
  | .rearmed =>
      -- The return from a handler unblocks the signal again.
      some { m with
        mask := if frame.signum = .sigvtalrm then false else m.mask
        chain := rest }

def Machine.next (m : Machine) : MachineEvent → Option Machine
  | .call call => if m.chain = [] then m.call call else none
  | .signal =>
      if m.mask = false ∧ m.handler = .switchThreads then
        some { m with mask := true, chain := ⟨.sigvtalrm, .entry⟩ :: m.chain }
      else none
  | .tick =>
      match m.chain with
      | [] => none
      | frame :: rest => m.tick frame rest

def machine : System Machine MachineEvent := .ofFunction Machine.next initialMachine

/-- What the next statement of the innermost call does. -/
inductive Ticked (m : Machine) (frame : Frame) (rest : List Frame) : Machine → Prop where
  | setIgnore (point : frame.point = .entry) : Ticked m frame rest
      { m with sa := .ignore, chain := { frame with point := .ignoreSet } :: rest }
  | ignore (point : frame.point = .ignoreSet) : Ticked m frame rest
      { m with handler := m.sa, chain := { frame with point := .ignored } :: rest }
  | save (point : frame.point = .ignored) : Ticked m frame rest
      { m with
        env := Function.update m.env m.lib.currentThread
          (some ⟨m.stack, { frame with point := .resumed } :: rest, m.mask⟩)
        chain := { frame with point := .saved } :: rest }
  | pick (point : frame.point = .saved) {lib : State}
      (switched : switchThreads m.lib frame.signum = some lib) : Ticked m frame rest
      { m with lib, chain := { frame with point := .picked } :: rest }
  | setHandler (point : frame.point = .picked) : Ticked m frame rest
      { m with sa := .switchThreads, chain := { frame with point := .handlerSet } :: rest }
  | install (point : frame.point = .handlerSet) : Ticked m frame rest
      { m with handler := m.sa, chain := { frame with point := .installed } :: rest }
  | arm (point : frame.point = .installed) : Ticked m frame rest
      { m with armed := true, chain := { frame with point := .armed } :: rest }
  | jump (point : frame.point = .armed) {context : Context}
      (found : m.env m.lib.currentThread = some context) : Ticked m frame rest
      { m with stack := context.stack, chain := context.chain, mask := context.mask }
  | resetHandler (point : frame.point = .resumed) : Ticked m frame rest
      { m with sa := .switchThreads, chain := { frame with point := .handlerReset } :: rest }
  | reinstall (point : frame.point = .handlerReset) : Ticked m frame rest
      { m with handler := m.sa, chain := { frame with point := .reinstalled } :: rest }
  | rearm (point : frame.point = .reinstalled) : Ticked m frame rest
      { m with armed := true, chain := { frame with point := .rearmed } :: rest }
  | leave (point : frame.point = .rearmed) : Ticked m frame rest
      { m with
        mask := if frame.signum = .sigvtalrm then false else m.mask
        chain := rest }

variable {m n : Machine}

theorem ticked_of_tick {frame : Frame} {rest : List Frame} (ticked : m.tick frame rest = some n) :
    Ticked m frame rest n := by
  rw [Machine.tick] at ticked
  cases point : frame.point <;> rw [point] at ticked
  case entry =>
    cases ticked
    exact .setIgnore point
  case ignoreSet =>
    cases ticked
    exact .ignore point
  case ignored =>
    cases ticked
    exact .save point
  case saved =>
    obtain ⟨lib, switched, rfl⟩ := Option.map_eq_some_iff.mp ticked
    exact .pick point switched
  case picked =>
    cases ticked
    exact .setHandler point
  case handlerSet =>
    cases ticked
    exact .install point
  case installed =>
    cases ticked
    exact .arm point
  case armed =>
    obtain ⟨context, found, rfl⟩ := Option.map_eq_some_iff.mp ticked
    exact .jump point found
  case resumed =>
    cases ticked
    exact .resetHandler point
  case handlerReset =>
    cases ticked
    exact .reinstall point
  case reinstalled =>
    cases ticked
    exact .rearm point
  case rearmed =>
    cases ticked
    exact .leave point

/-- The three ways in which the innermost call goes on: a signal interrupts it,
it executes a statement, or the running thread makes a call. -/
theorem next_cases {event : MachineEvent} (step : m.next event = some n) :
    (∃ call, event = .call call ∧ m.chain = [] ∧ m.call call = some n) ∨
      (event = .signal ∧ m.mask = false ∧ m.handler = .switchThreads ∧
        n = { m with mask := true, chain := ⟨.sigvtalrm, .entry⟩ :: m.chain }) ∨
      (event = .tick ∧ ∃ frame rest, m.chain = frame :: rest ∧ Ticked m frame rest n) := by
  cases event with
  | call call =>
      rw [Machine.next] at step
      split_ifs at step with own
      exact .inl ⟨call, rfl, own, step⟩
  | signal =>
      rw [Machine.next] at step
      split_ifs at step with deliverable
      cases step
      exact .inr (.inl ⟨rfl, deliverable.1, deliverable.2, rfl⟩)
  | tick =>
      rw [Machine.next] at step
      split at step
      · cases step
      next frame rest chain => exact .inr (.inr ⟨rfl, frame, rest, chain, ticked_of_tick step⟩)

/-- A call returns to the thread's code, or goes on in `switch_threads`. -/
theorem call_cases {call : Call} (step : m.call call = some n) :
    (∃ lib value masked, call.run m.lib = some (lib, .returned value masked) ∧
      n = { m with
        lib
        mask := masked
        env :=
          if call = .spawn ∧ value ≠ -1 then
            Function.update m.env value (some (freshContext m.lib.nextStack))
          else m.env }) ∨
      ∃ lib signum, call.run m.lib = some (lib, .switching signum) ∧
        n = { m with lib, mask := false, chain := [⟨signum, .entry⟩] } := by
  rw [Machine.call] at step
  split at step
  next lib value masked run =>
    cases step
    exact .inl ⟨lib, value, masked, run, rfl⟩
  next lib signum run =>
    cases step
    exact .inr ⟨lib, signum, run, rfl⟩
  · cases step
  · cases step

/-- What holds of every context holds after one is saved that has it. -/
theorem forall_update_env {P : Int → Context → Prop} {env : Int → Option Context}
    (old : ∀ j context, env j = some context → P j context) {i : Int} {context : Context}
    (new : P i context) :
    ∀ j context', Function.update env i (some context) j = some context' → P j context' := by
  intro j context' found
  by_cases same : j = i
  · subst same
    rw [Function.update_self, Option.some.injEq] at found
    exact found ▸ new
  · rw [Function.update_of_ne same] at found
    exact old j context' found

/-! ## The innermost call -/

theorem top_of_cons {P : Frame → Prop} {chain : List Frame} {frame : Frame} {rest : List Frame}
    (isChain : chain = frame :: rest) (holds : P frame) :
    ∀ frame' rest', chain = frame' :: rest' → P frame' := by
  intro frame' rest' isChain'
  rw [isChain, List.cons.injEq] at isChain'
  exact isChain'.1 ▸ holds

theorem top_of_mem {P : Frame → Prop} {chain : List Frame} (all : ∀ frame ∈ chain, P frame) :
    ∀ frame rest, chain = frame :: rest → P frame := by
  rintro frame rest rfl
  exact all frame List.mem_cons_self

/-! ## Frames below the innermost call -/

/-- A kind of frame that stays off the interrupted calls and the saved
contexts. -/
structure Parked (bad : Frame → Prop) (m : Machine) : Prop where
  interrupted : ∀ frame ∈ m.chain.tail, ¬ bad frame
  contexts : ∀ i context, m.env i = some context → ∀ frame ∈ context.chain, ¬ bad frame

variable {bad : Frame → Prop}

theorem parked_initial : Parked bad initialMachine where
  interrupted := fun _ member => absurd member List.not_mem_nil
  contexts := fun _ _ found => by cases found

theorem Parked.below (parked : Parked bad m) {frame : Frame} {rest : List Frame}
    (chain : m.chain = frame :: rest) : ∀ other ∈ rest, ¬ bad other := by
  have interrupted := parked.interrupted
  rw [chain] at interrupted
  exact interrupted

/-- A signal interrupts the innermost call, and nothing else moves a frame down;
a saved frame is at the point where `sigsetjmp` returns. -/
theorem Parked.next {event : MachineEvent} (parked : Parked bad m)
    (resumes : ∀ signum, ¬ bad ⟨signum, .resumed⟩)
    (spared : event = .signal → ∀ frame rest, m.chain = frame :: rest → ¬ bad frame)
    (step : m.next event = some n) : Parked bad n := by
  have contexts := parked.contexts
  rcases next_cases step with ⟨call, rfl, own, called⟩ | ⟨rfl, -, -, rfl⟩ |
    ⟨rfl, frame, rest, chain, ticked⟩
  · rcases call_cases called with ⟨lib, value, masked, -, rfl⟩ | ⟨lib, signum, -, rfl⟩
    · refine ⟨parked.interrupted, ?_⟩
      dsimp only
      split_ifs
      · exact forall_update_env contexts fun _ member => absurd member List.not_mem_nil
      · exact contexts
    · exact ⟨fun _ member => absurd member List.not_mem_nil, contexts⟩
  · refine ⟨?_, contexts⟩
    change ∀ frame ∈ m.chain, ¬ bad frame
    cases chain : m.chain with
    | nil => exact fun _ member => absurd member List.not_mem_nil
    | cons frame rest =>
        exact List.forall_mem_cons.mpr ⟨spared rfl frame rest chain, parked.below chain⟩
  · have below := parked.below chain
    cases ticked with
    | save point =>
        refine ⟨below, forall_update_env contexts ?_⟩
        exact List.forall_mem_cons.mpr ⟨resumes frame.signum, below⟩
    | jump point found =>
        exact ⟨fun frame member => contexts _ _ found frame (List.mem_of_mem_tail member), contexts⟩
    | leave point =>
        exact ⟨fun frame member => below frame (List.mem_of_mem_tail member), contexts⟩
    | setIgnore | ignore | pick | setHandler | install | arm | resetHandler | reinstall
      | rearm => exact ⟨below, contexts⟩

/-! ## Handlers in progress -/

/-- A handler runs with the signal blocked, and nothing interrupts it. -/
structure HandlerMasks (chain : List Frame) (mask : Bool) : Prop where
  top : ∀ frame rest, chain = frame :: rest → frame.signum = .sigvtalrm → mask = true
  below : ∀ frame ∈ chain.tail, frame.signum ≠ .sigvtalrm

theorem handlerMasks_nil (mask : Bool) : HandlerMasks [] mask where
  top := fun _ _ chain => by cases chain
  below := fun _ member => absurd member List.not_mem_nil

/-- The innermost call goes on. -/
theorem HandlerMasks.move {frame frame' : Frame} {rest : List Frame} {mask : Bool}
    (masks : HandlerMasks (frame :: rest) mask) (signum : frame'.signum = frame.signum) :
    HandlerMasks (frame' :: rest) mask where
  top := by
    rintro _ _ ⟨⟩ isHandler
    exact masks.top frame rest rfl (signum ▸ isHandler)
  below := masks.below

/-- Without a handler on top the calls in progress are direct. -/
theorem HandlerMasks.direct {frame : Frame} {rest : List Frame} {mask : Bool}
    (masks : HandlerMasks (frame :: rest) mask) (unmasked : mask = false) :
    ∀ other ∈ frame :: rest, other.signum ≠ .sigvtalrm := by
  refine List.forall_mem_cons.mpr ⟨fun isHandler => ?_, masks.below⟩
  cases unmasked.symm.trans (masks.top frame rest rfl isHandler)

/-- So it is here and in the saved contexts. -/
structure Masked (m : Machine) : Prop where
  here : HandlerMasks m.chain m.mask
  contexts : ∀ i context, m.env i = some context → HandlerMasks context.chain context.mask

theorem masked_initial : Masked initialMachine where
  here := handlerMasks_nil false
  contexts := fun _ _ found => by cases found

theorem Masked.tick (masked : Masked m) {frame : Frame} {rest : List Frame}
    (chain : m.chain = frame :: rest) (ticked : Ticked m frame rest n) : Masked n := by
  obtain ⟨here, contexts⟩ := masked
  rw [chain] at here
  cases ticked with
  | save => exact ⟨here.move rfl, forall_update_env contexts (here.move rfl)⟩
  | jump point found => exact ⟨contexts _ _ found, contexts⟩
  | leave =>
      refine ⟨⟨?_, fun frame member => here.below frame (List.mem_of_mem_tail member)⟩, contexts⟩
      rintro other _ rfl isHandler
      exact absurd isHandler (here.below other List.mem_cons_self)
  | setIgnore | ignore | pick | setHandler | install | arm | resetHandler | reinstall
    | rearm => exact ⟨here.move rfl, contexts⟩

theorem Masked.next {event : MachineEvent} (masked : Masked m) (step : m.next event = some n) :
    Masked n := by
  rcases next_cases step with ⟨call, rfl, own, called⟩ | ⟨rfl, unmasked, -, rfl⟩ |
    ⟨rfl, frame, rest, chain, ticked⟩
  · rcases call_cases called with ⟨lib, value, mask, -, rfl⟩ | ⟨lib, signum, run, rfl⟩
    · refine ⟨?_, ?_⟩
      · rw [show m.chain = [] from own]
        exact handlerMasks_nil mask
      · dsimp only
        split_ifs
        · exact forall_update_env masked.contexts (handlerMasks_nil false)
        · exact masked.contexts
    · refine ⟨⟨?_, fun _ member => absurd member List.not_mem_nil⟩, masked.contexts⟩
      rintro _ _ ⟨⟩ isHandler
      exact absurd isHandler (switching_direct run)
  · refine ⟨⟨fun _ _ _ _ => rfl, ?_⟩, masked.contexts⟩
    change ∀ frame ∈ m.chain, frame.signum ≠ .sigvtalrm
    cases chain : m.chain with
    | nil => exact fun _ member => absurd member List.not_mem_nil
    | cons frame rest => exact (chain ▸ masked.here).direct unmasked
  · exact masked.tick chain ticked

end Os2018.Uthreads
