import Mathlib.Logic.Function.Basic
import Os2018.Library.SortedMap

/-!
# The thread library

The global variables of the library are the fields of `State`, and a function
of the library takes the state and returns it changed. A function reads
`uthreads[tid]` without a check; where there is no thread, or no such entry, the
program has crashed and the result is `none`.

Every function of the interface blocks `SIGVTALRM` before it does anything
else, so its body is one step. It then returns, leaves the process, or unblocks
the signal and calls `switch_threads`, which is a function of its own below.
Some paths return with the signal still blocked, and `Ending` says so.

Memory allocation and system calls succeed. A stack is the number of its
allocation, so that it also names one incarnation of a thread id. The two
counters of quanta are natural numbers, which are those of the source as long as
an `int` holds them.
-/

set_option autoImplicit false

namespace Os2018.Uthreads

/-! ## Threads and ids -/

structure Thread where
  /-- Blocked using `uthread_block` on this thread. -/
  blockedDirectly : Bool
  /-- Blocked because it synced to another thread. -/
  syncBlocked : Bool
  quantums : Nat
  /-- All the threads that are synced with this one. -/
  syncDependencies : List Int
  stack : Nat
  deriving DecidableEq, Repr

/-- `thread()`, with a newly allocated stack. -/
def Thread.new (stack : Nat) : Thread := ⟨false, false, 0, [], stack⟩

def maxThreadNum : Int := 100

def mainThreadId : Int := 0

/-- `unique_id` manages the ids. -/
structure UniqueId where
  maxId : Int
  unusedIds : SortedMap Int Unit

/-- The constructor, which adds all ids but the main thread's. -/
def UniqueId.new (maxId : Int) : UniqueId where
  maxId := maxId
  unusedIds := (List.range' 1 (maxId.toNat - 1)).foldl
    (fun ids (i : Nat) => ids.insert (i : Int) ()) .empty

/-- The minimal id not in use if one exists, and -1 otherwise. -/
def UniqueId.generateId (tids : UniqueId) : Int × UniqueId :=
  match tids.unusedIds.firstKey? with
  | none => (-1, tids)
  | some id => (id, { tids with unusedIds := tids.unusedIds.erase id })

def UniqueId.removeId (tids : UniqueId) (id : Int) : UniqueId :=
  { tids with unusedIds := tids.unusedIds.insert id () }

def UniqueId.isUsed (tids : UniqueId) (id : Int) : Bool := !tids.unusedIds.contains id

/-- Only the ids of the pool are invalid: an id out of range passes. -/
def UniqueId.isValid (tids : UniqueId) (id : Int) : Bool :=
  !(id < tids.maxId && id ≥ 0 && !tids.isUsed id)

/-! ## The state -/

@[ext] structure State where
  uthreads : Int → Option Thread
  ready : List Int
  currentThread : Int
  totalQuantums : Nat
  tids : UniqueId
  /-- The number of the next stack to be allocated. -/
  nextStack : Nat

/-- `uthreads[tid] = thread`. -/
def State.setThread (s : State) (tid : Int) (thread : Option Thread) : State :=
  { s with uthreads := Function.update s.uthreads tid thread }

/-- `uthreads[tid]->field = value`. -/
def State.modify (s : State) (tid : Int) (change : Thread → Thread) : Option State :=
  (s.uthreads tid).map fun thread => s.setThread tid (some (change thread))

/-- `delete uthreads[tid]; uthreads[tid] = nullptr`. -/
def State.deleteThread (s : State) (tid : Int) : State := s.setThread tid none

/-- `ready.erase(std::remove(ready.begin(), ready.end(), tid), ready.end())`. -/
def State.removeReady (s : State) (tid : Int) : State :=
  { s with ready := s.ready.filter (· ≠ tid) }

/-- `ready.push_back(tid)`. -/
def State.pushReady (s : State) (tid : Int) : State := { s with ready := s.ready ++ [tid] }

section Fields

variable (s : State) (tid : Int) (thread : Option Thread)

@[simp] theorem State.setThread_self : (s.setThread tid thread).uthreads tid = thread :=
  Function.update_self ..

@[simp] theorem State.setThread_of_ne {other : Int} (different : other ≠ tid) :
    (s.setThread tid thread).uthreads other = s.uthreads other :=
  Function.update_of_ne different ..

@[simp] theorem State.setThread_ready : (s.setThread tid thread).ready = s.ready := rfl

@[simp] theorem State.removeReady_uthreads : (s.removeReady tid).uthreads = s.uthreads := rfl

end Fields

/-- The state after a successful `uthread_init`. -/
def uthreadInit : State where
  uthreads := Function.update (fun _ => none) mainThreadId
    (some { Thread.new 0 with quantums := 1 })
  ready := []
  currentThread := mainThreadId
  totalQuantums := 1
  tids := UniqueId.new maxThreadNum
  nextStack := 1

/-! ## Switching -/

/-- The argument of `switch_threads`. -/
inductive Signum where
  /-- `SIGVTALRM`. -/
  | sigvtalrm
  /-- `TERMINATE_SWITCH`. -/
  | terminateSwitch
  /-- `BLOCK_SWITCH`. -/
  | blockSwitch
  deriving DecidableEq, Repr

/-- What `switch_threads` does with the thread it leaves. -/
def State.leave (s : State) : Signum → State
  | .sigvtalrm => s.pushReady s.currentThread
  | .terminateSwitch => s.deleteThread s.currentThread
  | .blockSwitch => s

/-- What `switch_threads` does to pick the next thread. -/
def State.dispatch (s : State) : Option State :=
  match s.ready with
  | [] => none
  | next :: ready =>
      ({ s with currentThread := next, ready, totalQuantums := s.totalQuantums + 1 }).modify next
        fun thread => { thread with quantums := thread.quantums + 1 }

/-- `switch_threads`, between the two jumps. -/
def switchThreads (s : State) (signum : Signum) : Option State := (s.leave signum).dispatch

/-! ## The interface -/

/-- How a call of the library ends. -/
inductive Ending where
  /-- It returns a value, with `SIGVTALRM` blocked or not. -/
  | returned (value : Int) (masked : Bool)
  /-- It unblocks `SIGVTALRM` and calls `switch_threads`. -/
  | switching (signum : Signum)
  /-- The process ends. -/
  | exited (code : Int)
  deriving DecidableEq, Repr

/-- `uthreads_exit` releases every thread. -/
def uthreadsExit (s : State) (exitCode : Int) : State × Ending :=
  ({ s with uthreads := fun _ => none }, .exited exitCode)

def uthreadSpawn (s : State) : State × Ending :=
  match s.tids.generateId with
  | (currId, tids) =>
      if currId = -1 then ({ s with tids }, .returned (-1) false)
      else
        ((({ s with tids, nextStack := s.nextStack + 1 }).setThread currId
            (some (.new s.nextStack))).pushReady currId,
          .returned currId false)

/-- The loop of `uthread_terminate` over the threads that waited for the
terminated one. -/
def wakeDependents : List Int → State → Option State
  | [], s => some s
  | i :: rest, s => do
      let s ← s.modify i fun thread => { thread with syncBlocked := false }
      let thread ← s.uthreads i
      wakeDependents rest (if !thread.blockedDirectly then s.pushReady i else s)

def uthreadTerminate (s : State) (tid : Int) : Option (State × Ending) :=
  if !s.tids.isValid tid then some (s, .returned (-1) true)
  else if tid = mainThreadId then some (uthreadsExit s 0)
  else do
    let s := ({ s with tids := s.tids.removeId tid }).removeReady tid
    let thread ← s.uthreads tid
    let s ← wakeDependents thread.syncDependencies s
    if s.currentThread = tid then return (s, .switching .terminateSwitch)
    else return (s.deleteThread tid, .returned 0 false)

def uthreadBlock (s : State) (tid : Int) : Option (State × Ending) :=
  if !s.tids.isValid tid || tid = mainThreadId then some (s, .returned (-1) false)
  else if s.currentThread = tid then do
    let s ← s.modify tid fun thread => { thread with blockedDirectly := true }
    return (s, .switching .blockSwitch)
  else do
    let thread ← s.uthreads tid
    if !thread.blockedDirectly then
      let s ← s.modify tid fun thread => { thread with blockedDirectly := true }
      return (s.removeReady tid, .returned 0 false)
    else return (s, .returned 0 true)

def uthreadResume (s : State) (tid : Int) : Option (State × Ending) :=
  if !s.tids.isValid tid then some (s, .returned (-1) true)
  else if tid = mainThreadId || tid = s.currentThread then some (s, .returned 0 false)
  else do
    let thread ← s.uthreads tid
    if thread.blockedDirectly then
      let s ← s.modify tid fun thread => { thread with blockedDirectly := false }
      return (if !thread.syncBlocked then s.pushReady tid else s, .returned 0 false)
    else return (s, .returned 0 false)

def uthreadSync (s : State) (tid : Int) : Option (State × Ending) :=
  if !s.tids.isValid tid || s.currentThread = mainThreadId || tid = s.currentThread then
    some (s, .returned (-1) false)
  else do
    let s ← s.modify s.currentThread fun thread => { thread with syncBlocked := true }
    let s ← s.modify tid fun thread =>
      { thread with syncDependencies := thread.syncDependencies ++ [s.currentThread] }
    return (s, .switching .blockSwitch)

def uthreadGetTid (s : State) : Int := s.currentThread

def uthreadGetTotalQuantums (s : State) : Nat := s.totalQuantums

def uthreadGetQuantums (s : State) (tid : Int) : Option Int :=
  if !s.tids.isValid tid then some (-1) else (s.uthreads tid).map fun thread => thread.quantums

/-- The calls that change the state. -/
inductive Call where
  | spawn
  | terminate (tid : Int)
  | block (tid : Int)
  | resume (tid : Int)
  | sync (tid : Int)
  deriving DecidableEq, Repr

def Call.run (s : State) : Call → Option (State × Ending)
  | .spawn => some (uthreadSpawn s)
  | .terminate tid => uthreadTerminate s tid
  | .block tid => uthreadBlock s tid
  | .resume tid => uthreadResume s tid
  | .sync tid => uthreadSync s tid

end Os2018.Uthreads
