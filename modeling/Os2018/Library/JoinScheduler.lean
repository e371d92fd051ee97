import Mathlib.Data.List.Nodup
import Mathlib.Data.Set.Insert
import Os2018.Library.Transition

/-!
# Round-robin scheduling with joins

One thread runs and the others that can run wait in a queue, first in, first
out. A thread can be held and released by others, and it can join another, that
is wait until the other has finished. The two are independent: a thread that is
released while it still waits stays out of the queue. The main thread is neither
held nor does it join.

This is the meaning of the requests and no way to carry them out. Who waits for
whom is a relation, and a finished thread's waiters enter the queue in any order.

The queue holds exactly the threads that can run (`consistent_of_path`). Threads
that wait for each other in a cycle do not run again before one of them is
finished from outside (`Cycle.step`).
-/

set_option autoImplicit false

open Transition

universe u

variable {α : Type u}

/-- The threads, what stops them, and the order in which they run. -/
@[ext] structure JoinScheduler (α : Type u) where
  live : Set α
  running : α
  queue : List α
  held : Set α
  /-- The first thread waits for the end of the second. -/
  joins : α → α → Prop

namespace JoinScheduler

inductive Request (α : Type u) where
  | spawn
  | finish (x : α)
  | hold (x : α)
  | release (x : α)
  | join (x : α)
  /-- The turn of the running thread is over. -/
  | tick

/-! ## The requests -/

def Runnable (s : JoinScheduler α) (x : α) : Prop := x ∈ s.live ∧ x ∉ s.held ∧ ∀ y, ¬ s.joins x y

/-- Only the main thread is there. -/
def start (main : α) : JoinScheduler α where
  live := {main}
  running := main
  queue := []
  held := ∅
  joins := fun _ _ => False

/-- The requests that have no effect. -/
def Void (names : Set α) (main : α) (s : JoinScheduler α) : Request α → Prop
  | .spawn => names ⊆ s.live
  | .finish x => x ∉ s.live
  | .hold x => x ∉ s.live ∨ x = main ∨ x ∈ s.held
  | .release x => x ∉ s.held
  | .join x => x ∉ s.live ∨ x = s.running ∨ s.running = main
  | .tick => False

def add (s : JoinScheduler α) (x : α) : JoinScheduler α :=
  { s with live := insert x s.live, queue := s.queue ++ [x] }

section Decidable

variable [DecidableEq α]

/-- The list has those that wait for the thread and can run without it. -/
def Wakes (s : JoinScheduler α) (x : α) (woken : List α) : Prop :=
  woken.Nodup ∧ ∀ i, i ∈ woken ↔ s.joins i x ∧ i ∉ s.held

def remove (s : JoinScheduler α) (x : α) (woken : List α) : JoinScheduler α where
  live := s.live \ {x}
  running := s.running
  queue := s.queue.filter (· ≠ x) ++ woken
  held := s.held \ {x}
  joins := fun i j => s.joins i j ∧ i ≠ x ∧ j ≠ x

def suspend (s : JoinScheduler α) (x : α) : JoinScheduler α :=
  { s with held := insert x s.held, queue := s.queue.filter (· ≠ x) }

end Decidable

def unhold (s : JoinScheduler α) (x : α) : JoinScheduler α := { s with held := s.held \ {x} }

def enqueue (s : JoinScheduler α) (x : α) : JoinScheduler α := { s with queue := s.queue ++ [x] }

/-- The running thread waits for the end of another. -/
def await (s : JoinScheduler α) (x : α) : JoinScheduler α :=
  { s with joins := fun i j => s.joins i j ∨ (i = s.running ∧ j = x) }

/-- The thread at the front of the queue runs. -/
inductive Dispatches : JoinScheduler α → JoinScheduler α → Prop where
  | intro {s : JoinScheduler α} {next : α} {rest : List α} : s.queue = next :: rest →
      Dispatches s { s with running := next, queue := rest }

/-- A request and its effect. A request that stops the running thread, and the
end of its turn, dispatch the next. -/
inductive Step [DecidableEq α] (names : Set α) (main : α) :
    JoinScheduler α → Request α → JoinScheduler α → Prop where
  | void {s : JoinScheduler α} {request : Request α} : s.Void names main request →
      Step names main s request s
  | spawn {s : JoinScheduler α} {x : α} : x ∈ names → x ∉ s.live →
      Step names main s .spawn (s.add x)
  | finish {s : JoinScheduler α} {x : α} {woken : List α} : x ∈ s.live → x ≠ main →
      x ≠ s.running → s.Wakes x woken → Step names main s (.finish x) (s.remove x woken)
  | exit {s t : JoinScheduler α} {x : α} {woken : List α} : x ≠ main → x = s.running →
      s.Wakes x woken → Dispatches (s.remove x woken) t → Step names main s (.finish x) t
  | hold {s : JoinScheduler α} {x : α} : x ∈ s.live → x ≠ main → x ∉ s.held → x ≠ s.running →
      Step names main s (.hold x) (s.suspend x)
  | pause {s t : JoinScheduler α} {x : α} : x ≠ main → x = s.running →
      Dispatches (s.suspend x) t → Step names main s (.hold x) t
  | release {s : JoinScheduler α} {x : α} : x ∈ s.held → (∀ y, ¬ s.joins x y) →
      Step names main s (.release x) ((s.unhold x).enqueue x)
  | releaseWaiting {s : JoinScheduler α} {x y : α} : x ∈ s.held → s.joins x y →
      Step names main s (.release x) (s.unhold x)
  | join {s t : JoinScheduler α} {x : α} : x ∈ s.live → x ≠ s.running → s.running ≠ main →
      Dispatches (s.await x) t → Step names main s (.join x) t
  | tick {s t : JoinScheduler α} : Dispatches (s.enqueue s.running) t → Step names main s .tick t

/-- Threads named from a set, the main thread among them. -/
def system [DecidableEq α] (names : Set α) (main : α) :
    System (JoinScheduler α) (Request α) where
  init s := s = start main
  step := Step names main

/-! ## What is in the queue -/

/-- What holds at every point of a step. -/
structure Accounted (main : α) (s : JoinScheduler α) : Prop where
  nodup : s.queue.Nodup
  held_live : s.held ⊆ s.live
  joins_live : ∀ x y, s.joins x y → x ∈ s.live ∧ y ∈ s.live ∧ x ≠ y
  joins_one : ∀ x y z, s.joins x y → s.joins x z → y = z
  main : s.Runnable main

/-- All threads that can run are in the queue, but the current one. -/
structure Settled (main : α) (s : JoinScheduler α) : Prop extends Accounted main s where
  queue_iff : ∀ x, x ∈ s.queue ↔ x ≠ s.running ∧ s.Runnable x

/-- A thread runs, and all others that can run are in the queue. -/
structure Consistent (main : α) (s : JoinScheduler α) : Prop extends Settled main s where
  running : s.Runnable s.running

/-- No thread runs, and all that can run are in the queue. -/
structure Idle (main : α) (s : JoinScheduler α) : Prop extends Accounted main s where
  queue_iff : ∀ x, x ∈ s.queue ↔ s.Runnable x

variable {main : α} {s t : JoinScheduler α}

theorem Settled.idle (settled : Settled main s) (stopped : ¬ s.Runnable s.running) :
    Idle main s where
  toAccounted := settled.toAccounted
  queue_iff := by
    intro x
    rw [settled.queue_iff]
    exact ⟨And.right, fun runnable => ⟨fun same => stopped (same ▸ runnable), runnable⟩⟩

theorem Idle.dispatches (idle : Idle main s) (picked : Dispatches s t) : Consistent main t := by
  cases picked with
  | @intro next rest queue =>
      have nodup := idle.nodup
      rw [queue] at nodup
      obtain ⟨notLater, nodup⟩ := List.nodup_cons.mp nodup
      refine ⟨⟨⟨nodup, idle.held_live, idle.joins_live, idle.joins_one, idle.main⟩,
        fun x => ?_⟩, ?_⟩
      · change x ∈ rest ↔ x ≠ next ∧ s.Runnable x
        rw [← idle.queue_iff, queue, List.mem_cons]
        constructor
        · exact fun member => ⟨fun same => notLater (same ▸ member), .inr member⟩
        · exact fun ⟨other, member⟩ => member.resolve_left other
      · exact (idle.queue_iff next).mp (by rw [queue]; exact List.mem_cons_self)

theorem Accounted.nodup_enqueue (accounted : Accounted main s) {x : α} (absent : x ∉ s.queue) :
    (s.queue ++ [x]).Nodup := by
  rw [← List.concat_eq_append]
  exact accounted.nodup.concat absent

theorem Consistent.turn (consistent : Consistent main s) : Idle main (s.enqueue s.running) where
  nodup := consistent.nodup_enqueue fun member => ((consistent.queue_iff _).mp member).1 rfl
  held_live := consistent.held_live
  joins_live := consistent.joins_live
  joins_one := consistent.joins_one
  main := consistent.main
  queue_iff := by
    intro x
    change x ∈ s.queue ++ [s.running] ↔ s.Runnable x
    rw [List.mem_append, List.mem_singleton, consistent.queue_iff]
    constructor
    · rintro (⟨-, runnable⟩ | rfl)
      · exact runnable
      · exact consistent.running
    · intro runnable
      by_cases same : x = s.running
      · exact .inr same
      · exact .inl ⟨same, runnable⟩

/-- A thread that was not there joins the queue. -/
theorem Consistent.add (consistent : Consistent main s) {x : α} (fresh : x ∉ s.live) :
    Consistent main (s.add x) := by
  have runnable_iff : ∀ i, (s.add x).Runnable i ↔ i = x ∨ s.Runnable i := by
    intro i
    constructor
    · rintro ⟨rfl | live, free, waits⟩
      · exact .inl rfl
      · exact .inr ⟨live, free, waits⟩
    · rintro (rfl | ⟨live, free, waits⟩)
      · exact ⟨.inl rfl, fun held => fresh (consistent.held_live held),
          fun y joins => fresh (consistent.joins_live _ y joins).1⟩
      · exact ⟨.inr live, free, waits⟩
  have other : ∀ i, s.Runnable i → i ≠ x := fun i runnable same => fresh (same ▸ runnable.1)
  refine ⟨⟨⟨?_, fun i held => .inr (consistent.held_live held), ?_, consistent.joins_one,
    (runnable_iff _).mpr (.inr consistent.main)⟩, fun i => ?_⟩,
    (runnable_iff _).mpr (.inr consistent.running)⟩
  · exact consistent.nodup_enqueue fun member =>
      other x ((consistent.queue_iff x).mp member).2 rfl
  · intro i j joins
    obtain ⟨live, live', different⟩ := consistent.joins_live i j joins
    exact ⟨.inr live, .inr live', different⟩
  · change i ∈ s.queue ++ [x] ↔ i ≠ s.running ∧ _
    rw [runnable_iff, List.mem_append, List.mem_singleton, consistent.queue_iff]
    constructor
    · rintro (⟨different, runnable⟩ | rfl)
      · exact ⟨different, .inr runnable⟩
      · exact ⟨(other _ consistent.running).symm, .inl rfl⟩
    · rintro ⟨different, rfl | runnable⟩
      · exact .inr rfl
      · exact .inl ⟨different, runnable⟩

/-- A released thread that waits for no other joins the queue. -/
theorem Consistent.released (consistent : Consistent main s) {x : α} (held : x ∈ s.held)
    (free : ∀ y, ¬ s.joins x y) : Consistent main ((s.unhold x).enqueue x) := by
  have runnable_iff : ∀ i, ((s.unhold x).enqueue x).Runnable i ↔ i = x ∨ s.Runnable i := by
    intro i
    by_cases same : i = x
    · subst same
      exact iff_of_true ⟨consistent.held_live held, fun still => still.2 rfl, free⟩ (.inl rfl)
    · simp [Runnable, unhold, enqueue, same]
  have other : ∀ i, s.Runnable i → i ≠ x := fun i runnable same => runnable.2.1 (same ▸ held)
  refine ⟨⟨⟨?_, fun i still => consistent.held_live still.1, consistent.joins_live,
    consistent.joins_one, (runnable_iff _).mpr (.inr consistent.main)⟩, fun i => ?_⟩,
    (runnable_iff _).mpr (.inr consistent.running)⟩
  · exact consistent.nodup_enqueue fun member =>
      other x ((consistent.queue_iff x).mp member).2 rfl
  · change i ∈ s.queue ++ [x] ↔ i ≠ s.running ∧ _
    rw [runnable_iff, List.mem_append, List.mem_singleton, consistent.queue_iff]
    constructor
    · rintro (⟨different, runnable⟩ | rfl)
      · exact ⟨different, .inr runnable⟩
      · exact ⟨(other _ consistent.running).symm, .inl rfl⟩
    · rintro ⟨different, rfl | runnable⟩
      · exact .inr rfl
      · exact .inl ⟨different, runnable⟩

/-- A released thread that waits stays out of the queue. -/
theorem Consistent.unheld (consistent : Consistent main s) {x y : α} (joins : s.joins x y) :
    Consistent main (s.unhold x) := by
  have runnable_iff : ∀ i, (s.unhold x).Runnable i ↔ s.Runnable i := by
    intro i
    by_cases same : i = x
    · subst same
      exact iff_of_false (fun runnable => runnable.2.2 y joins) fun runnable => runnable.2.2 y joins
    · simp [Runnable, unhold, same]
  refine ⟨⟨⟨consistent.nodup, fun i still => consistent.held_live still.1, consistent.joins_live,
    consistent.joins_one, (runnable_iff _).mpr consistent.main⟩, fun i => ?_⟩,
    (runnable_iff _).mpr consistent.running⟩
  rw [runnable_iff]
  exact consistent.queue_iff i

/-- The running thread waits for another. -/
theorem Consistent.await (consistent : Consistent main s) {x : α} (live : x ∈ s.live)
    (other : x ≠ s.running) (notMain : s.running ≠ main) :
    Settled main (s.await x) ∧ ¬ (s.await x).Runnable s.running := by
  have runnable_iff : ∀ i, (s.await x).Runnable i ↔ i ≠ s.running ∧ s.Runnable i := by
    intro i
    by_cases same : i = s.running
    · subst same
      exact iff_of_false (fun runnable => runnable.2.2 x (.inr ⟨rfl, rfl⟩)) fun both => both.1 rfl
    · simp [Runnable, JoinScheduler.await, same]
  refine ⟨⟨⟨consistent.nodup, consistent.held_live, ?_, ?_,
    (runnable_iff _).mpr ⟨notMain.symm, consistent.main⟩⟩, fun i => ?_⟩,
    fun runnable => ((runnable_iff _).mp runnable).1 rfl⟩
  · rintro i j (joins | ⟨rfl, rfl⟩)
    · exact consistent.joins_live i j joins
    · exact ⟨consistent.running.1, live, other.symm⟩
  · rintro i j k (joins | ⟨rfl, rfl⟩) (joins' | ⟨same, rfl⟩)
    · exact consistent.joins_one i j k joins joins'
    · exact absurd (same ▸ joins) (consistent.running.2.2 j)
    · exact absurd joins' (consistent.running.2.2 k)
    · rfl
  · rw [runnable_iff]
    change i ∈ s.queue ↔ _
    rw [consistent.queue_iff]
    exact ⟨fun ⟨different, runnable⟩ => ⟨different, different, runnable⟩,
      fun ⟨_, both⟩ => both⟩

theorem consistent_start (main : α) : Consistent main (start main) := by
  have runnable_iff : ∀ x, (start main).Runnable x ↔ x = main := by
    simp [Runnable, start]
  refine ⟨⟨⟨List.nodup_nil, fun _ => False.elim, fun _ _ => False.elim, fun _ _ _ => False.elim,
    (runnable_iff _).mpr rfl⟩, fun x => ?_⟩, (runnable_iff _).mpr rfl⟩
  rw [runnable_iff]
  exact ⟨fun member => absurd member List.not_mem_nil, fun ⟨other, same⟩ => absurd same other⟩

/-- Each thread of the set waits for another of the set. -/
def Cycle (s : JoinScheduler α) (circle : Set α) : Prop := ∀ x ∈ circle, ∃ y ∈ circle, s.joins x y

/-- Threads that wait for each other neither run nor queue. -/
theorem Cycle.stopped {circle : Set α} (waits : s.Cycle circle) (consistent : Consistent main s)
    {x : α} (member : x ∈ circle) : x ∉ s.queue ∧ s.running ≠ x := by
  obtain ⟨y, -, joins⟩ := waits x member
  refine ⟨fun queued => ((consistent.queue_iff x).mp queued).2.2.2 y joins, ?_⟩
  rintro rfl
  exact consistent.running.2.2 y joins

section Decidable

variable [DecidableEq α]

theorem runnable_suspend {x : α} (i : α) :
    (s.suspend x).Runnable i ↔ i ≠ x ∧ s.Runnable i := by
  simp only [Runnable, suspend, Set.mem_insert_iff]
  grind

/-- A held thread leaves the queue. -/
theorem Consistent.suspend (consistent : Consistent main s) {x : α} (live : x ∈ s.live)
    (notMain : x ≠ main) : Settled main (s.suspend x) where
  nodup := consistent.nodup.filter _
  held_live := Set.insert_subset live consistent.held_live
  joins_live := consistent.joins_live
  joins_one := consistent.joins_one
  main := (runnable_suspend main).mpr ⟨notMain.symm, consistent.main⟩
  queue_iff := by
    intro i
    change i ∈ s.queue.filter (· ≠ x) ↔ i ≠ s.running ∧ _
    rw [runnable_suspend, List.mem_filter, consistent.queue_iff, decide_eq_true_eq]
    exact ⟨fun ⟨⟨other, runnable⟩, rest⟩ => ⟨other, rest, runnable⟩,
      fun ⟨other, rest, runnable⟩ => ⟨⟨other, runnable⟩, rest⟩⟩

theorem Consistent.runnable_remove (consistent : Consistent main s) {x : α} {woken : List α}
    (i : α) : (s.remove x woken).Runnable i ↔
      i ≠ x ∧ (s.Runnable i ∨ (s.joins i x ∧ i ∉ s.held)) := by
  constructor
  · rintro ⟨⟨live, other⟩, free, waits⟩
    have notHeld : i ∉ s.held := fun held => free ⟨held, other⟩
    refine ⟨other, ?_⟩
    by_cases joins : s.joins i x
    · exact .inr ⟨joins, notHeld⟩
    · exact .inl ⟨live, notHeld, fun y joins' =>
        waits y ⟨joins', other, fun same => joins (same ▸ joins')⟩⟩
  · rintro ⟨other, ⟨live, free, waits⟩ | ⟨joins, free⟩⟩
    · exact ⟨⟨live, other⟩, fun held => free held.1, fun y joins => waits y joins.1⟩
    · refine ⟨⟨(consistent.joins_live i x joins).1, other⟩, fun held => free held.1, ?_⟩
      rintro y ⟨joins', -, different⟩
      exact different (consistent.joins_one i y x joins' joins)

/-- A finished thread is gone, and those that waited for it can run if they are
not held. -/
theorem Consistent.remove (consistent : Consistent main s) {x : α} {woken : List α}
    (notMain : x ≠ main) (wakes : s.Wakes x woken) : Settled main (s.remove x woken) where
  nodup := by
    refine List.nodup_append.mpr ⟨consistent.nodup.filter _, wakes.1, ?_⟩
    rintro i member j isWoken rfl
    have runnable := ((consistent.queue_iff i).mp (List.mem_of_mem_filter member)).2
    exact runnable.2.2 x ((wakes.2 i).mp isWoken).1
  held_live := fun i held => ⟨consistent.held_live held.1, held.2⟩
  joins_live := by
    rintro i j ⟨joins, other, other'⟩
    obtain ⟨live, live', different⟩ := consistent.joins_live i j joins
    exact ⟨⟨live, other⟩, ⟨live', other'⟩, different⟩
  joins_one := fun i j k joins joins' => consistent.joins_one i j k joins.1 joins'.1
  main := (consistent.runnable_remove main).mpr ⟨notMain.symm, .inl consistent.main⟩
  queue_iff := by
    intro i
    change i ∈ s.queue.filter (· ≠ x) ++ woken ↔ i ≠ s.running ∧ _
    rw [consistent.runnable_remove, List.mem_append, List.mem_filter, decide_eq_true_eq,
      consistent.queue_iff, wakes.2]
    constructor
    · rintro (⟨⟨other, runnable⟩, different⟩ | ⟨joins, free⟩)
      · exact ⟨other, different, .inl runnable⟩
      · refine ⟨?_, (consistent.joins_live i x joins).2.2, .inr ⟨joins, free⟩⟩
        rintro rfl
        exact consistent.running.2.2 x joins
    · rintro ⟨other, different, runnable | woken⟩
      · exact .inl ⟨⟨other, runnable⟩, different⟩
      · exact .inr woken

variable {names : Set α} {request : Request α}

/-- **Every request keeps the queue right.** -/
theorem Consistent.step (consistent : Consistent main s) (step : Step names main s request t) :
    Consistent main t := by
  cases step with
  | void _ => exact consistent
  | spawn _ fresh => exact consistent.add fresh
  | finish live notMain other wakes =>
      refine ⟨consistent.remove notMain wakes, ?_⟩
      exact (consistent.runnable_remove _).mpr ⟨other.symm, .inl consistent.running⟩
  | exit notMain isRunning wakes picked =>
      refine ((consistent.remove notMain wakes).idle fun runnable => ?_).dispatches picked
      exact ((consistent.runnable_remove _).mp runnable).1 isRunning.symm
  | hold live notMain free other =>
      exact ⟨consistent.suspend live notMain,
        (runnable_suspend _).mpr ⟨other.symm, consistent.running⟩⟩
  | pause notMain isRunning picked =>
      have live := consistent.running.1
      rw [← isRunning] at live
      refine ((consistent.suspend live notMain).idle fun runnable => ?_).dispatches picked
      exact ((runnable_suspend _).mp runnable).1 isRunning.symm
  | release held free => exact consistent.released held free
  | releaseWaiting held joins => exact consistent.unheld joins
  | join live other notMain picked =>
      obtain ⟨settled, stopped⟩ := consistent.await live other notMain
      exact (settled.idle stopped).dispatches picked
  | tick picked => exact consistent.turn.dispatches picked

/-- In every state that a path from the start leads to, the queue is right. -/
theorem consistent_of_path {requests : List (Request α)}
    (path : (system names main).Path (start main) requests s) : Consistent main s := by
  refine path.invariant (P := Consistent main) ?_ (consistent_start main)
  intro before request after consistent step
  have stepped : Step names main before request after := step
  exact consistent.step stepped

/-! ## Waiting in a cycle -/

/-- Whom a thread waits for stays the same until one of the two is finished. -/
theorem joins_step (step : Step names main s request t) {x y : α} (joins : s.joins x y)
    (spared : request ≠ .finish x ∧ request ≠ .finish y) : t.joins x y := by
  have removed : ∀ z woken, request = .finish z → (s.remove z woken).joins x y := by
    rintro z woken rfl
    exact ⟨joins, fun same => spared.1 (same ▸ rfl), fun same => spared.2 (same ▸ rfl)⟩
  cases step with
  | void _ => exact joins
  | spawn _ _ => exact joins
  | finish _ _ _ _ => exact removed _ _ rfl
  | @exit _ z woken _ _ _ picked =>
      cases picked
      exact removed z woken rfl
  | hold _ _ _ _ => exact joins
  | pause _ _ picked =>
      cases picked
      exact joins
  | release _ _ => exact joins
  | releaseWaiting _ _ => exact joins
  | join _ _ _ picked =>
      cases picked
      exact .inl joins
  | tick picked =>
      cases picked
      exact joins

/-- **A cycle is never left from inside.** -/
theorem Cycle.step {circle : Set α} (waits : s.Cycle circle)
    (step : Step names main s request t) (spared : ∀ x ∈ circle, request ≠ .finish x) :
    t.Cycle circle := by
  intro x member
  obtain ⟨y, member', joins⟩ := waits x member
  exact ⟨y, member', joins_step step joins ⟨spared x member, spared y member'⟩⟩

end Decidable

end JoinScheduler
