import Os2018.Library.Census
import Os2018.Library.Transition
import Mathlib.Data.List.ReduceOption
import Mathlib.Data.Multiset.Bind
import Mathlib.Tactic.Abel

/-!
# The hand-off from shuffle to reduce

Thread 0 runs `shufflePhase`: it pushes one vector after another onto the shared
queue and posts the semaphore once for each, sets `isShuffleDone`, and posts the
semaphore once more for every thread. All threads, thread 0 at last, run
`reducePhase`: wait on the semaphore, pop a vector under the mutex, and either
reduce it or, when there was none and the flag is set, leave.

Each statement on shared data is one step, and a step belongs to one thread; the
threads are interleaved in any way. What `shufflePhase` does to its own vectors
in a round, and what the client's `reduce` emits, are parameters of the hand-off
(`Workload`).

The permits of the semaphore, and those that threads have taken or have still to
post, are together as many as the vectors in the queue, and once the flag is set
as many more as there are wake-up posts (`Counted.permits`). So a thread that
finds the queue empty had a wake-up permit, the flag was set before, and the
branch that would reduce a null vector is not taken.
-/

set_option autoImplicit false

namespace Os2018.MapReduce

open Transition Census Function

universe u v w z

variable {Source : Type u} {Choice : Type v} {Vec : Type w} {Out : Type z}

/-! ## The code -/

/-- What `shufflePhase` and `reducePhase` call: the size of the vector of
vectors, the erasure of its empty elements, its `empty()`, one round of the loop
up to the push, and the client's `reduce` with the pairs it emits. -/
structure Workload (Source : Type u) (Choice : Type v) (Vec : Type w) (Out : Type z) where
  threadNum : Source → Nat
  eraseEmpty : Source → Source
  isEmpty : Source → Bool
  round : Source → Choice → Option (Vec × Source)
  reduce : Vec → List Out

/-- Where a thread is between its steps. The first four are in `shufflePhase`. -/
inductive HandPoint (Vec : Type w) (Out : Type z) where
  | erase
  | shuffle
  | post
  | wake (posts : Nat)
  | wait
  | pop
  | check (queueIsEmpty : Bool) (reduceVec : Option Vec)
  | reduce (reduceVec : Option Vec)
  | emit (pairs : List Out)
  | left
deriving DecidableEq, Repr

/-- The shared data, the local variables of `shufflePhase`, and where each of the
`n + 1` threads is. `pushed` and `reduced` record the vectors pushed and the
arguments of the calls of `reduce`. -/
structure HandOff (n : Nat) (Source : Type u) (Vec : Type w) (Out : Type z) where
  vectors : Source
  threadNum : Nat
  semaphore : Nat
  shuffleVectors : List Vec
  isShuffleDone : Bool
  outputVec : List Out
  thread : Fin (n + 1) → HandPoint Vec Out
  pushed : List Vec
  reduced : List (Option Vec)

namespace HandOff

variable {n : Nat}

/-- `singleThread` after `sortPhase`: only thread 0 runs `shufflePhase`. -/
def init (vectors : Source) (outputVec : List Out) : HandOff n Source Vec Out where
  vectors := vectors
  threadNum := 0
  semaphore := 0
  shuffleVectors := []
  isShuffleDone := false
  outputVec := outputVec
  thread := fun i => if i = 0 then .erase else .wait
  pushed := []
  reduced := []

def goTo (s : HandOff n Source Vec Out) (i : Fin (n + 1)) (point : HandPoint Vec Out) :
    HandOff n Source Vec Out :=
  { s with thread := update s.thread i point }

/-- The next step of thread `i`; `none` when it has none. -/
def next (load : Workload Source Choice Vec Out) (s : HandOff n Source Vec Out)
    (i : Fin (n + 1)) (choice : Choice) : Option (HandOff n Source Vec Out) :=
  match s.thread i with
  | .erase =>
      some { s.goTo i .shuffle with
        vectors := load.eraseEmpty s.vectors, threadNum := load.threadNum s.vectors }
  | .shuffle =>
      if load.isEmpty s.vectors then
        some { s.goTo i (.wake s.threadNum) with isShuffleDone := true }
      else
        (load.round s.vectors choice).map fun (shuffleVec, vectors) =>
          { s.goTo i .post with
            vectors := vectors
            shuffleVectors := s.shuffleVectors ++ [shuffleVec]
            pushed := s.pushed ++ [shuffleVec] }
  | .post => some { s.goTo i .shuffle with semaphore := s.semaphore + 1 }
  | .wake 0 => some (s.goTo i .wait)
  | .wake (posts + 1) => some { s.goTo i (.wake posts) with semaphore := s.semaphore + 1 }
  | .wait =>
      match s.semaphore with
      | 0 => none
      | permits + 1 => some { s.goTo i .pop with semaphore := permits }
  | .pop =>
      match s.shuffleVectors.getLast? with
      | none => some (s.goTo i (.check true none))
      | some vec =>
          some { s.goTo i (.check false (some vec)) with
            shuffleVectors := s.shuffleVectors.dropLast }
  | .check queueIsEmpty reduceVec =>
      if queueIsEmpty && s.isShuffleDone then some (s.goTo i .left)
      else some (s.goTo i (.reduce reduceVec))
  | .reduce reduceVec =>
      some { s.goTo i (.emit (reduceVec.elim [] load.reduce)) with
        reduced := s.reduced ++ [reduceVec] }
  | .emit [] => some (s.goTo i .wait)
  | .emit (pair :: pairs) =>
      some { s.goTo i (.emit pairs) with outputVec := s.outputVec ++ [pair] }
  | .left => none

/-- The steps of thread `i`, one constructor for each statement and outcome. -/
inductive Step (load : Workload Source Choice Vec Out) (s : HandOff n Source Vec Out)
    (i : Fin (n + 1)) (choice : Choice) : HandOff n Source Vec Out → Prop where
  | erase (point : s.thread i = .erase) :
      Step load s i choice { s.goTo i .shuffle with
        vectors := load.eraseEmpty s.vectors, threadNum := load.threadNum s.vectors }
  | done (point : s.thread i = .shuffle) (isEmpty : load.isEmpty s.vectors = true) :
      Step load s i choice { s.goTo i (.wake s.threadNum) with isShuffleDone := true }
  | push (point : s.thread i = .shuffle) (shuffleVec : Vec) (vectors : Source)
      (nonempty : load.isEmpty s.vectors = false)
      (round : load.round s.vectors choice = some (shuffleVec, vectors)) :
      Step load s i choice { s.goTo i .post with
        vectors := vectors
        shuffleVectors := s.shuffleVectors ++ [shuffleVec]
        pushed := s.pushed ++ [shuffleVec] }
  | post (point : s.thread i = .post) :
      Step load s i choice { s.goTo i .shuffle with semaphore := s.semaphore + 1 }
  | woken (point : s.thread i = .wake 0) : Step load s i choice (s.goTo i .wait)
  | wake (posts : Nat) (point : s.thread i = .wake (posts + 1)) :
      Step load s i choice { s.goTo i (.wake posts) with semaphore := s.semaphore + 1 }
  | wait (point : s.thread i = .wait) (permits : Nat) (semaphore : s.semaphore = permits + 1) :
      Step load s i choice { s.goTo i .pop with semaphore := permits }
  | popNone (point : s.thread i = .pop) (queue : s.shuffleVectors = []) :
      Step load s i choice (s.goTo i (.check true none))
  | pop (point : s.thread i = .pop) (shuffleVectors : List Vec) (vec : Vec)
      (queue : s.shuffleVectors = shuffleVectors ++ [vec]) :
      Step load s i choice { s.goTo i (.check false (some vec)) with
        shuffleVectors := shuffleVectors }
  | leave (reduceVec : Option Vec) (point : s.thread i = .check true reduceVec)
      (flag : s.isShuffleDone = true) : Step load s i choice (s.goTo i .left)
  | check (queueIsEmpty : Bool) (reduceVec : Option Vec)
      (point : s.thread i = .check queueIsEmpty reduceVec)
      (stays : queueIsEmpty = true → s.isShuffleDone = false) :
      Step load s i choice (s.goTo i (.reduce reduceVec))
  | reduce (reduceVec : Option Vec) (point : s.thread i = .reduce reduceVec) :
      Step load s i choice { s.goTo i (.emit (reduceVec.elim [] load.reduce)) with
        reduced := s.reduced ++ [reduceVec] }
  | again (point : s.thread i = .emit []) : Step load s i choice (s.goTo i .wait)
  | emit (pair : Out) (pairs : List Out) (point : s.thread i = .emit (pair :: pairs)) :
      Step load s i choice { s.goTo i (.emit pairs) with outputVec := s.outputVec ++ [pair] }

variable {load : Workload Source Choice Vec Out} {s t : HandOff n Source Vec Out}
  {i : Fin (n + 1)} {choice : Choice}

theorem next_step (step : s.next load i choice = some t) : Step load s i choice t := by
  cases point : s.thread i with
  | erase =>
      simp only [next, point, Option.some.injEq] at step
      exact step ▸ .erase point
  | shuffle =>
      simp only [next, point] at step
      split at step
      · exact Option.some.inj step ▸ .done point ‹_›
      · obtain ⟨⟨shuffleVec, vectors⟩, round, rfl⟩ := Option.map_eq_some_iff.mp step
        exact .push point shuffleVec vectors (Bool.eq_false_iff.mpr ‹_›) round
  | post =>
      simp only [next, point, Option.some.injEq] at step
      exact step ▸ .post point
  | wake posts =>
      cases posts with
      | zero =>
          simp only [next, point, Option.some.injEq] at step
          exact step ▸ .woken point
      | succ posts =>
          simp only [next, point, Option.some.injEq] at step
          exact step ▸ .wake posts point
  | wait =>
      simp only [next, point] at step
      split at step
      · cases step
      · exact Option.some.inj step ▸ .wait point _ ‹_›
  | pop =>
      simp only [next, point] at step
      split at step
      · exact Option.some.inj step ▸ .popNone point (List.getLast?_eq_none_iff.mp ‹_›)
      · obtain ⟨queue, split⟩ := List.getLast?_eq_some_iff.mp ‹_›
        simp only [split, List.dropLast_concat, Option.some.injEq] at step
        exact step ▸ .pop point queue _ split
  | check queueIsEmpty reduceVec =>
      simp only [next, point] at step
      by_cases leaves : (queueIsEmpty && s.isShuffleDone) = true
      · rw [if_pos leaves] at step
        obtain ⟨rfl, flag⟩ := Bool.and_eq_true_iff.mp leaves
        exact Option.some.inj step ▸ .leave reduceVec point flag
      · rw [if_neg leaves] at step
        refine Option.some.inj step ▸ .check queueIsEmpty reduceVec point ?_
        rintro rfl
        simpa using leaves
  | reduce reduceVec =>
      simp only [next, point, Option.some.injEq] at step
      exact step ▸ .reduce reduceVec point
  | emit pairs =>
      cases pairs with
      | nil =>
          simp only [next, point, Option.some.injEq] at step
          exact step ▸ .again point
      | cons pair pairs =>
          simp only [next, point, Option.some.injEq] at step
          exact step ▸ .emit pair pairs point
  | left =>
      simp only [next, point] at step
      cases step

theorem Step.thread_of_ne (step : Step load s i choice t) {j : Fin (n + 1)} (other : j ≠ i) :
    t.thread j = s.thread j := by
  cases step <;> exact update_of_ne other ..

theorem Step.not_erase (step : Step load s i choice t) : t.thread i ≠ .erase := by
  cases step <;> simp [goTo]

/-- What a step does to the vectors that `shufflePhase` works on. -/
theorem Step.source_cases (step : Step load s i choice t) :
    (s.thread i = .erase ∧ t.vectors = load.eraseEmpty s.vectors ∧
      t.threadNum = load.threadNum s.vectors ∧ t.pushed = s.pushed) ∨
    (s.thread i = .shuffle ∧ load.isEmpty s.vectors = false ∧ ∃ shuffleVec vectors,
      load.round s.vectors choice = some (shuffleVec, vectors) ∧ t.vectors = vectors ∧
        t.threadNum = s.threadNum ∧ t.pushed = s.pushed ++ [shuffleVec]) ∨
    (s.thread i ≠ .erase ∧ (s.thread i = .shuffle → load.isEmpty s.vectors = true) ∧
      t.vectors = s.vectors ∧ t.threadNum = s.threadNum ∧ t.pushed = s.pushed) := by
  cases step with
  | erase point => exact .inl ⟨point, rfl, rfl, rfl⟩
  | push point shuffleVec vectors nonempty round =>
      exact .inr (.inl ⟨point, nonempty, shuffleVec, vectors, round, rfl, rfl, rfl⟩)
  | done point isEmpty =>
      refine .inr (.inr ⟨?_, fun _ => isEmpty, rfl, rfl, rfl⟩)
      rw [point]
      nofun
  | _ =>
      refine .inr (.inr ⟨?_, ?_, rfl, rfl, rfl⟩) <;> rw [‹s.thread i = _›] <;> nofun

end HandOff

/-! ## Permits -/

namespace HandPoint

/-- The permits a thread has taken from the semaphore and not matched with a
vector, and those it has still to post before the vectors are as many. -/
def owed : HandPoint Vec Out → Nat
  | .post => 1
  | .wake posts => posts
  | .pop => 1
  | .check true _ => 1
  | .left => 1
  | _ => 0

/-- In `shufflePhase`, before the flag is set. -/
def Shuffling : HandPoint Vec Out → Prop
  | .erase => True
  | .shuffle => True
  | .post => True
  | _ => False

/-- Has found the queue empty. -/
def SawEnd : HandPoint Vec Out → Prop
  | .check true _ => True
  | .left => True
  | _ => False

/-- The popped vector is null exactly if the queue was empty, and then it is not
reduced. -/
def Sound : HandPoint Vec Out → Prop
  | .check queueIsEmpty reduceVec => queueIsEmpty = reduceVec.isNone
  | .reduce reduceVec => reduceVec ≠ none
  | _ => True

end HandPoint

open HandPoint

namespace HandOff

variable {n : Nat} {load : Workload Source Choice Vec Out} {s t : HandOff n Source Vec Out}
  {i : Fin (n + 1)} {choice : Choice}

/-- The wake-up posts that the flag announces. -/
def wakeUps : Bool → Nat → Nat
  | true, threadNum => threadNum
  | false, _ => 0

/-- The counting invariant. -/
structure Counted (load : Workload Source Choice Vec Out) (s : HandOff n Source Vec Out) :
    Prop where
  shuffling : ∀ j, (s.thread j).Shuffling ↔ j = 0 ∧ s.isShuffleDone = false
  finished : s.isShuffleDone = true → load.isEmpty s.vectors = true
  permits : s.semaphore + total owed s.thread =
    s.shuffleVectors.length + wakeUps s.isShuffleDone s.threadNum
  sawEnd : ∀ j, (s.thread j).SawEnd → s.isShuffleDone = true ∧ s.shuffleVectors = []
  sound : ∀ j, (s.thread j).Sound
  called : none ∉ s.reduced

theorem counted_init (vectors : Source) (outputVec : List Out) :
    Counted load (init vectors outputVec : HandOff n Source Vec Out) where
  shuffling := by
    intro j
    by_cases zero : j = 0 <;> simp [init, zero, Shuffling]
  finished := by simp [init]
  permits := by
    have none : total owed (init vectors outputVec : HandOff n Source Vec Out).thread = 0 := by
      apply total_eq_zero
      intro j
      by_cases zero : j = 0 <;> simp [init, zero, owed]
    rw [none]
    rfl
  sawEnd := by
    intro j
    by_cases zero : j = 0 <;> simp [init, zero, SawEnd]
  sound := by
    intro j
    by_cases zero : j = 0 <;> simp [init, zero, Sound]
  called := List.not_mem_nil

/-- Only thread 0 is in `shufflePhase`, and it leaves it with the flag. -/
theorem Counted.shuffling_step (counted : Counted load s) (step : Step load s i choice t)
    (j : Fin (n + 1)) : (t.thread j).Shuffling ↔ j = 0 ∧ t.isShuffleDone = false := by
  by_cases mover : j = i
  · have before := counted.shuffling j
    subst mover
    have outside : ¬(s.thread j).Shuffling → ¬(j = 0 ∧ s.isShuffleDone = false) :=
      fun left => left ∘ before.mpr
    cases step with
    | erase point | push point | post point =>
        exact iff_of_true (by simp [goTo, Shuffling]) (before.mp (by rw [point]; trivial))
    | done point isEmpty => exact iff_of_false (by simp [goTo, Shuffling]) (by simp)
    | woken point | wake posts point | wait point | popNone point | pop point
    | leave reduceVec point | check queueIsEmpty reduceVec point | reduce reduceVec point
    | again point | emit pair pairs point =>
        exact iff_of_false (by simp [goTo, Shuffling]) (outside (by rw [point]; exact id))
  · rw [step.thread_of_ne mover, counted.shuffling j]
    cases step with
    | done point isEmpty =>
        -- Thread `j` is not thread 0, which is setting the flag.
        obtain ⟨rfl, -⟩ := (counted.shuffling i).mp (by rw [point]; trivial)
        simp [mover]
    | _ => rfl

/-- The flag is not set while a thread is in `shufflePhase`. -/
theorem Counted.not_done (counted : Counted load s) (shuffling : (s.thread i).Shuffling) :
    s.isShuffleDone = false :=
  ((counted.shuffling i).mp shuffling).2

theorem Counted.finished_step (counted : Counted load s) (step : Step load s i choice t)
    (flag : t.isShuffleDone = true) : load.isEmpty t.vectors = true := by
  cases step with
  | erase point =>
      have notDone := counted.not_done (i := i) (by rw [point]; trivial)
      cases notDone.symm.trans flag
  | done point isEmpty => exact isEmpty
  | push point shuffleVec vectors nonempty round =>
      have notDone := counted.not_done (i := i) (by rw [point]; trivial)
      cases notDone.symm.trans flag
  | _ => exact counted.finished flag

/-- A permit is posted for every push and every wake-up; a pop uses one up, and
so does the discovery that the queue is empty. -/
theorem Counted.permits_step (counted : Counted load s) (step : Step load s i choice t) :
    t.semaphore + total owed t.thread =
      t.shuffleVectors.length + wakeUps t.isShuffleDone t.threadNum := by
  have before := counted.permits
  rw [total_eq owed s.thread i] at before
  cases step with
  | erase point =>
      have notDone := counted.not_done (i := i) (by rw [point]; trivial)
      simpa only [goTo, total_update, owed, wakeUps, point, notDone] using before
  | done point isEmpty =>
      have notDone := counted.not_done (i := i) (by rw [point]; trivial)
      simp only [goTo, total_update, owed, wakeUps, point, notDone] at before ⊢
      omega
  | push point shuffleVec vectors nonempty round =>
      simp only [goTo, total_update, owed, point, List.length_append, List.length_singleton]
        at before ⊢
      omega
  | pop point shuffleVectors vec queue =>
      simp only [goTo, total_update, owed, point, queue, List.length_append, List.length_singleton]
        at before ⊢
      omega
  | check queueIsEmpty reduceVec point stays =>
      have sawEnd := counted.sawEnd i
      cases queueIsEmpty with
      | false => simpa only [goTo, total_update, owed, point] using before
      | true =>
          rw [point] at sawEnd
          cases (stays rfl).symm.trans (sawEnd trivial).1
  | post point | woken point | wake posts point | wait point permits semaphore | popNone point queue
  | leave reduceVec point flag | reduce reduceVec point | again point | emit pair pairs point =>
      simp only [goTo, total_update, owed, point] at before ⊢
      omega

/-- A thread that finds the queue empty holds a permit for which there is no
vector, so it is one of the wake-up posts. -/
theorem Counted.done_of_empty (counted : Counted load s) (point : s.thread i = .pop)
    (queue : s.shuffleVectors = []) : s.isShuffleDone = true := by
  have permits := counted.permits
  rw [total_eq owed s.thread i, point, queue] at permits
  cases flag : s.isShuffleDone with
  | true => rfl
  | false =>
      simp only [owed, List.length_nil, flag, wakeUps] at permits
      omega

theorem Counted.sawEnd_step (counted : Counted load s) (step : Step load s i choice t)
    (j : Fin (n + 1)) (sawEnd : (t.thread j).SawEnd) :
    t.isShuffleDone = true ∧ t.shuffleVectors = [] := by
  have before := counted.sawEnd j
  by_cases mover : j = i
  · subst mover
    cases step with
    | popNone point queue => exact ⟨counted.done_of_empty point queue, queue⟩
    | leave reduceVec point flag =>
        rw [point] at before
        exact before trivial
    | _ => simp [goTo, SawEnd] at sawEnd
  · rw [step.thread_of_ne mover] at sawEnd
    cases step with
    | done point isEmpty => exact ⟨rfl, (before sawEnd).2⟩
    | push point shuffleVec vectors nonempty round =>
        have notDone := counted.not_done (i := i) (by rw [point]; trivial)
        cases notDone.symm.trans (before sawEnd).1
    | pop point shuffleVectors vec queue =>
        rw [queue] at before
        exact absurd (before sawEnd).2 (by simp)
    | _ => exact before sawEnd

theorem Counted.sound_step (counted : Counted load s) (step : Step load s i choice t)
    (j : Fin (n + 1)) : (t.thread j).Sound := by
  have before := counted.sound j
  by_cases mover : j = i
  · subst mover
    cases step with
    | check queueIsEmpty reduceVec point stays =>
        have sawEnd := counted.sawEnd j
        rw [point] at before sawEnd
        cases queueIsEmpty with
        | false =>
            simp only [goTo, update_self, Sound]
            rintro rfl
            cases before
        | true => cases (stays rfl).symm.trans (sawEnd trivial).1
    | _ => simp [goTo, Sound]
  · rw [step.thread_of_ne mover]
    exact before

theorem Counted.called_step (counted : Counted load s) (step : Step load s i choice t) :
    none ∉ t.reduced := by
  cases step with
  | reduce reduceVec point =>
      have sound := counted.sound i
      rw [point] at sound
      simpa [goTo, counted.called] using Ne.symm sound
  | _ => exact counted.called

theorem Counted.step (counted : Counted load s) (step : Step load s i choice t) :
    Counted load t where
  shuffling := counted.shuffling_step step
  finished := counted.finished_step step
  permits := counted.permits_step step
  sawEnd := counted.sawEnd_step step
  sound := counted.sound_step step
  called := counted.called_step step

/-! ## Progress -/

/-- `shufflePhase` posts as many wake-ups as there are threads: it reads the size
of the vector of vectors before it erases any. -/
structure Sized (load : Workload Source Choice Vec Out) (s : HandOff n Source Vec Out) :
    Prop where
  unread : s.thread 0 = .erase → load.threadNum s.vectors = n + 1
  read : s.thread 0 ≠ .erase → s.threadNum = n + 1

theorem sized_init {vectors : Source} (outputVec : List Out)
    (size : load.threadNum vectors = n + 1) :
    Sized load (init vectors outputVec : HandOff n Source Vec Out) where
  unread := fun _ => size
  read := fun later => absurd rfl later

theorem Sized.step (sized : Sized load s) (counted : Counted load s)
    (step : Step load s i choice t) : Sized load t := by
  have only := (counted.shuffling i).mp
  have moved := step.source_cases
  constructor
  · intro unread
    have other : (0 : Fin (n + 1)) ≠ i := by
      rintro rfl
      exact step.not_erase unread
    have before : s.thread 0 = .erase := by rw [← step.thread_of_ne other, unread]
    rcases moved with ⟨point, -⟩ | ⟨point, -⟩ | ⟨-, -, vectors, -⟩
    · exact absurd (only (by rw [point]; trivial)).1.symm other
    · exact absurd (only (by rw [point]; trivial)).1.symm other
    · rw [vectors]
      exact sized.unread before
  · intro read
    rcases moved with ⟨point, -, threadNum, -⟩ | ⟨point, -, _, _, -, -, threadNum, -⟩ |
      ⟨notErase, -, -, threadNum, -⟩
    · obtain ⟨rfl, -⟩ := only (by rw [point]; trivial)
      rw [threadNum]
      exact sized.unread point
    · obtain ⟨rfl, -⟩ := only (by rw [point]; trivial)
      rw [threadNum]
      exact sized.read (by rw [point]; nofun)
    · rw [threadNum]
      apply sized.read
      intro unread
      by_cases zero : 0 = i
      · exact notErase (zero ▸ unread)
      · exact read (by rw [step.thread_of_ne zero, unread])

/-- A thread that is neither at the semaphore nor done can move. -/
theorem can_move (rounds : s.thread i = .shuffle → load.isEmpty s.vectors = false →
      ∃ choice, (load.round s.vectors choice).isSome)
    (someChoice : Nonempty Choice) (notWaiting : s.thread i ≠ .wait)
    (notLeft : s.thread i ≠ .left) : ∃ choice, (s.next load i choice).isSome := by
  obtain ⟨anyChoice⟩ := someChoice
  cases point : s.thread i with
  | shuffle =>
      cases isEmpty : load.isEmpty s.vectors with
      | true => exact ⟨anyChoice, by simp [next, point, isEmpty]⟩
      | false =>
          obtain ⟨choice, round⟩ := rounds point isEmpty
          exact ⟨choice, by simpa [next, point, isEmpty] using round⟩
  | wait => exact absurd point notWaiting
  | left => exact absurd point notLeft
  | wake posts => cases posts <;> exact ⟨anyChoice, by simp [next, point]⟩
  | emit pairs => cases pairs <;> exact ⟨anyChoice, by simp [next, point]⟩
  | pop =>
      refine ⟨anyChoice, ?_⟩
      simp only [next, point]
      split <;> rfl
  | check queueIsEmpty reduceVec =>
      refine ⟨anyChoice, ?_⟩
      simp only [next, point]
      split <;> rfl
  | erase | post | reduce reduceVec => exact ⟨anyChoice, by simp [next, point]⟩

/-- **Some thread can move as long as one has not left.** If all that have not
left wait on the semaphore, thread 0 has set the flag and posted, and there are
more permits than threads that took one and left. -/
theorem Counted.not_stuck (counted : Counted load s) (sized : Sized load s)
    (rounds : ∀ j, s.thread j = .shuffle → load.isEmpty s.vectors = false →
      ∃ choice, (load.round s.vectors choice).isSome)
    (someChoice : Nonempty Choice) (active : s.thread i ≠ .left) :
    ∃ j choice, (s.next load j choice).isSome := by
  by_cases blocked : ∀ j, s.thread j = .wait ∨ s.thread j = .left
  · have waiting : s.thread i = .wait := (blocked i).resolve_right active
    have flag : s.isShuffleDone = true := by
      have zero := counted.shuffling 0
      rcases blocked 0 with point | point <;> simpa [point, Shuffling] using zero
    have notErase : s.thread 0 ≠ .erase := by
      rcases blocked 0 with point | point <;> simp [point]
    have taken : total owed s.thread < n + 1 := by
      have light : owed (s.thread i) = 0 := by rw [waiting]; rfl
      have atMost : ∀ j, owed (s.thread j) ≤ 1 := by
        intro j
        rcases blocked j with point | point <;> simp [point, owed]
      simpa using total_lt_card atMost light
    have permits := counted.permits
    rw [flag, wakeUps, sized.read notErase] at permits
    obtain ⟨rest, semaphore⟩ := Nat.exists_eq_add_one_of_ne_zero
      (show s.semaphore ≠ 0 by omega)
    obtain ⟨anyChoice⟩ := someChoice
    exact ⟨i, anyChoice, by simp [next, waiting, semaphore]⟩
  · simp only [not_forall, not_or] at blocked
    obtain ⟨j, notWaiting, notLeft⟩ := blocked
    exact ⟨j, can_move (rounds j) someChoice notWaiting notLeft⟩

/-- When all threads have left, nothing is in the queue and no permit is over. -/
theorem Counted.settled (counted : Counted load s) (sized : Sized load s)
    (left : ∀ j, s.thread j = .left) : s.shuffleVectors = [] ∧ s.semaphore = 0 := by
  obtain ⟨flag, queue⟩ := counted.sawEnd 0 (by rw [left]; trivial)
  have permits := counted.permits
  rw [show s.thread = fun _ => .left from funext left, total_const, flag, queue, wakeUps,
    sized.read (by rw [left]; nofun)] at permits
  simp only [Fintype.card_fin, owed, nsmul_one, Nat.cast_id, List.length_nil] at permits
  exact ⟨queue, by omega⟩

end HandOff

/-! ## Conservation -/

/-- The vectors a thread has popped and not reduced. -/
def HandPoint.held : HandPoint Vec Out → Multiset Vec
  | .check _ reduceVec => reduceVec.toList
  | .reduce reduceVec => reduceVec.toList
  | _ => 0

/-- The pairs the client's `reduce` has still to emit. -/
def HandPoint.pending : HandPoint Vec Out → Multiset Out
  | .emit pairs => pairs
  | _ => 0

namespace HandOff

variable {n : Nat} {load : Workload Source Choice Vec Out} {s t : HandOff n Source Vec Out}
  {i : Fin (n + 1)} {choice : Choice} {outputVec : List Out}

/-- Every vector pushed is in the queue, with one thread, or reduced; every pair
that `reduce` emits is in the output or still to be emitted. -/
structure Conserved (load : Workload Source Choice Vec Out) (outputVec : List Out)
    (s : HandOff n Source Vec Out) : Prop where
  vectors : (s.shuffleVectors : Multiset Vec) + total held s.thread +
    (s.reduced.reduceOption : Multiset Vec) = s.pushed
  outputs : (s.outputVec : Multiset Out) + total pending s.thread =
    (outputVec : Multiset Out) + (s.reduced.reduceOption.flatMap load.reduce : Multiset Out)

theorem conserved_init (vectors : Source) :
    Conserved load outputVec (init vectors outputVec : HandOff n Source Vec Out) where
  vectors := by
    have none : total held (init vectors outputVec : HandOff n Source Vec Out).thread = 0 := by
      apply total_eq_zero
      intro j
      by_cases zero : j = 0 <;> simp [init, zero, held]
    rw [none]
    rfl
  outputs := by
    have none : total pending (init vectors outputVec : HandOff n Source Vec Out).thread = 0 := by
      apply total_eq_zero
      intro j
      by_cases zero : j = 0 <;> simp [init, zero, pending]
    rw [none]
    rfl

theorem Conserved.vectors_step (conserved : Conserved load outputVec s) (counted : Counted load s)
    (step : Step load s i choice t) :
    (t.shuffleVectors : Multiset Vec) + total held t.thread +
      (t.reduced.reduceOption : Multiset Vec) = t.pushed := by
  have before := conserved.vectors
  rw [total_eq held s.thread i] at before
  cases step with
  | push point shuffleVec vectors nonempty round =>
      simp only [goTo, total_update, held, point] at before ⊢
      rw [← Multiset.coe_add, ← Multiset.coe_add, ← before]
      abel
  | pop point shuffleVectors vec queue =>
      simp only [goTo, total_update, held, point, queue, Option.toList_some] at before ⊢
      rw [← before, ← Multiset.coe_add]
      abel
  | leave reduceVec point flag =>
      have sound := counted.sound i
      rw [point] at sound
      obtain rfl : reduceVec = none := Option.isNone_iff_eq_none.mp sound.symm
      simpa only [goTo, total_update, held, point, Option.toList_none, Multiset.coe_nil]
        using before
  | reduce reduceVec point =>
      simp only [goTo, total_update, held, point] at before ⊢
      rw [← before, List.reduceOption_append, List.reduceOption_singleton, ← Multiset.coe_add]
      abel
  | _ =>
      simpa only [goTo, total_update, held, ‹s.thread i = _›, Option.toList_none,
        Multiset.coe_nil] using before

theorem Conserved.outputs_step (conserved : Conserved load outputVec s)
    (step : Step load s i choice t) :
    (t.outputVec : Multiset Out) + total pending t.thread =
      (outputVec : Multiset Out) + (t.reduced.reduceOption.flatMap load.reduce : Multiset Out) := by
  have before := conserved.outputs
  rw [total_eq pending s.thread i] at before
  cases step with
  | reduce reduceVec point =>
      simp only [goTo, total_update, pending, point] at before ⊢
      rw [List.reduceOption_append, List.reduceOption_singleton, List.flatMap_append,
        ← Multiset.coe_add, ← add_assoc (outputVec : Multiset Out), ← before]
      cases reduceVec with
      | none => simp
      | some vec =>
          simp only [Option.elim_some, Option.toList_some, List.flatMap_singleton]
          abel
  | emit pair pairs point =>
      simp only [goTo, total_update, pending, point] at before ⊢
      rw [← before, ← Multiset.coe_add, ← Multiset.cons_coe pair pairs, ← Multiset.singleton_add,
        Multiset.coe_singleton]
      abel
  | _ => simpa only [goTo, total_update, pending, ‹s.thread i = _›, Multiset.coe_nil] using before

theorem Conserved.step (conserved : Conserved load outputVec s) (counted : Counted load s)
    (step : Step load s i choice t) : Conserved load outputVec t where
  vectors := conserved.vectors_step counted step
  outputs := conserved.outputs_step step

/-! ## Runs -/

/-- What holds in every state of the hand-off. -/
structure Valid (load : Workload Source Choice Vec Out) (outputVec : List Out)
    (s : HandOff n Source Vec Out) : Prop where
  counted : Counted load s
  sized : Sized load s
  conserved : Conserved load outputVec s

theorem valid_init {vectors : Source} (size : load.threadNum vectors = n + 1) :
    Valid load outputVec (init vectors outputVec : HandOff n Source Vec Out) :=
  ⟨counted_init vectors outputVec, sized_init outputVec size, conserved_init vectors⟩

theorem Valid.step (valid : Valid load outputVec s) (step : Step load s i choice t) :
    Valid load outputVec t where
  counted := valid.counted.step step
  sized := valid.sized.step valid.counted step
  conserved := valid.conserved.step valid.counted step

/-- When all threads have left, `reduce` has been called with the vectors that
were pushed and nothing else, and all it emitted is in the output. -/
theorem Valid.settled (valid : Valid load outputVec s) (left : ∀ j, s.thread j = .left) :
    ∃ groups : List Vec, s.reduced = groups.map some ∧ groups.Perm s.pushed ∧
      s.outputVec.Perm (outputVec ++ groups.flatMap load.reduce) := by
  refine ⟨s.reduced.reduceOption, ?_, ?_, ?_⟩
  · have called := valid.counted.called
    generalize s.reduced = reduced at called
    induction reduced with
    | nil => rfl
    | cons reduceVec reduced ih =>
        simp only [List.mem_cons, not_or] at called
        obtain ⟨notNone, rest⟩ := called
        cases reduceVec with
        | none => exact absurd rfl notNone
        | some vec => rw [List.reduceOption_cons_of_some, List.map_cons, ← ih rest]
  · have vectors := valid.conserved.vectors
    rw [(valid.counted.settled valid.sized left).1,
      total_eq_zero fun j => by rw [left]; rfl] at vectors
    simpa using vectors
  · have outputs := valid.conserved.outputs
    rw [total_eq_zero fun j => by rw [left]; rfl, add_zero, Multiset.coe_add] at outputs
    exact Multiset.coe_eq_coe.mp outputs

/-- A relation of the pushed vectors to those left that the erasure and each
round keep. -/
theorem Step.supply {R : List Vec → Source → Prop} (step : Step load s i choice t)
    (erase : ∀ pushed vectors, R pushed vectors → R pushed (load.eraseEmpty vectors))
    (round : ∀ pushed vectors choice shuffleVec vectors', R pushed vectors →
      load.round vectors choice = some (shuffleVec, vectors') →
      R (pushed ++ [shuffleVec]) vectors')
    (before : R s.pushed s.vectors) : R t.pushed t.vectors := by
  rcases step.source_cases with ⟨-, vectors, -, pushed⟩ |
    ⟨-, -, shuffleVec, vectors, produced, rfl, -, pushed⟩ | ⟨-, -, vectors, -, pushed⟩
  · rw [vectors, pushed]
    exact erase _ _ before
  · rw [pushed]
    exact round _ _ _ _ _ before produced
  · rw [vectors, pushed]
    exact before

/-- A scheduled step: the thread, and what its statement leaves open. -/
def scheduled (load : Workload Source Choice Vec Out) (s : HandOff n Source Vec Out)
    (event : Fin (n + 1) × Choice) : Option (HandOff n Source Vec Out) :=
  s.next load event.1 event.2

/-- The steps of the threads in any order. -/
def system (n : Nat) (load : Workload Source Choice Vec Out) (vectors : Source)
    (outputVec : List Out) : System (HandOff n Source Vec Out) (Fin (n + 1) × Choice) :=
  System.ofFunction (scheduled load) (init vectors outputVec)

end HandOff

/-! ## Any number of vectors -/

/-- `shufflePhase` has the given vectors to push. -/
def ofVectors (threadNum : Nat) (reduce : Vec → List Out) :
    Workload (List Vec) Unit Vec Out where
  threadNum := fun _ => threadNum
  eraseEmpty := id
  isEmpty := List.isEmpty
  round := fun vectors _ =>
    match vectors with
    | [] => none
    | vec :: vectors => some (vec, vectors)
  reduce := reduce

namespace HandOff

variable {n : Nat}

theorem ofVectors_invariant {vectors : List Vec} {reduce : Vec → List Out} {outputVec : List Out}
    {s : HandOff n (List Vec) Vec Out}
    (reachable : (system n (ofVectors (n + 1) reduce) vectors outputVec).Reachable s) :
    Valid (ofVectors (n + 1) reduce) outputVec s ∧ s.pushed ++ s.vectors = vectors := by
  refine reachable.invariant (P := fun s =>
    Valid (ofVectors (n + 1) reduce) outputVec s ∧ s.pushed ++ s.vectors = vectors) ?_ ?_
  · rintro s rfl
    exact ⟨valid_init rfl, rfl⟩
  · rintro s ⟨i, choice⟩ t - ⟨valid, supply⟩ step
    have moved := next_step step
    refine ⟨valid.step moved, moved.supply (R := fun pushed rest => pushed ++ rest = vectors)
      (fun _ _ kept => kept) ?_ supply⟩
    rintro pushed (_ | ⟨vec, rest⟩) choice shuffleVec vectors' kept round
    · cases round
    · obtain ⟨rfl, rfl⟩ := Prod.mk.inj (Option.some.inj round)
      rw [← kept, List.append_assoc, List.singleton_append]

/-- **The hand-off.** For every number of threads, every list of vectors and
every interleaving: `reduce` is not called with a null pointer; every vector
pushed is in the queue, with one thread, or reduced; some thread can move unless
all have left; and when all have left, the queue is empty, the semaphore is at
zero, and `reduce` has been called once for each vector. -/
theorem handOff_safe (vectors : List Vec) (reduce : Vec → List Out) (outputVec : List Out)
    (s : HandOff n (List Vec) Vec Out)
    (reachable : (system n (ofVectors (n + 1) reduce) vectors outputVec).Reachable s) :
    none ∉ s.reduced ∧
    (s.shuffleVectors + total HandPoint.held s.thread + s.reduced.reduceOption + s.vectors :
      Multiset Vec) = vectors ∧
    ((∃ i, s.thread i ≠ .left) →
      ∃ i, (s.next (ofVectors (n + 1) reduce) i ()).isSome) ∧
    ((∀ i, s.thread i = .left) →
      s.shuffleVectors = [] ∧ s.semaphore = 0 ∧ s.reduced.Perm (vectors.map some)) := by
  obtain ⟨valid, supply⟩ := ofVectors_invariant reachable
  refine ⟨valid.counted.called, ?_, ?_, ?_⟩
  · rw [valid.conserved.vectors, Multiset.coe_add, supply]
  · rintro ⟨i, active⟩
    have rounds : ∀ j, s.thread j = .shuffle →
        (ofVectors (n + 1) reduce).isEmpty s.vectors = false →
          ∃ choice, ((ofVectors (n + 1) reduce).round s.vectors choice).isSome := by
      intro _ _ nonempty
      cases vectorsLeft : s.vectors with
      | nil => cases vectorsLeft ▸ nonempty
      | cons vec rest => exact ⟨(), rfl⟩
    obtain ⟨j, _, moves⟩ := valid.counted.not_stuck valid.sized rounds ⟨()⟩ active
    exact ⟨j, moves⟩
  · intro left
    obtain ⟨queue, semaphore⟩ := valid.counted.settled valid.sized left
    obtain ⟨flag, -⟩ := valid.counted.sawEnd 0 (by rw [left]; trivial)
    have none : s.vectors = [] := List.isEmpty_iff.mp (valid.counted.finished flag)
    rw [none, List.append_nil] at supply
    obtain ⟨groups, calls, perm, -⟩ := valid.settled left
    exact ⟨queue, semaphore, calls ▸ (perm.trans (.of_eq supply)).map some⟩

/-- Thread 1 reduces the one vector and leaves while thread 0 is still posting
the wake-ups. -/
def oneVectorEvents : List (Fin 2 × Unit) :=
  [0, 0, 0, 1, 1, 1, 1, 1, 1, 0, 0, 1, 1, 1, 0, 0, 0, 0, 0].map fun i => (i, ())

theorem handOff_safe_oneVector : ∃ s : HandOff 1 (List Nat) Nat Nat,
    exec (scheduled (ofVectors 2 fun vec => [vec + 1])) (init [7] []) oneVectorEvents = some s ∧
      s.outputVec = [8] ∧ s.shuffleVectors = [] ∧ s.semaphore = 0 ∧ s.reduced.Perm [some 7] := by
  have result : (exec (scheduled (ofVectors 2 fun vec => [vec + 1]))
      (init [7] [] : HandOff 1 (List Nat) Nat Nat) oneVectorEvents).map
        (fun s => (s.outputVec, s.thread 0, s.thread 1)) = some ([8], .left, .left) := by
    decide +kernel
  obtain ⟨s, run, outcome⟩ := Option.map_eq_some_iff.mp result
  obtain ⟨outputVec, zero, one⟩ : s.outputVec = [8] ∧ s.thread 0 = .left ∧ s.thread 1 = .left := by
    simpa using outcome
  have left : ∀ i, s.thread i = .left := Fin.forall_fin_two.mpr ⟨zero, one⟩
  have reachable := exec_reachable (.init rfl) run
  exact ⟨s, run, outputVec, (handOff_safe [7] (fun vec => [vec + 1]) [] s reachable).2.2.2 left⟩

end HandOff

end Os2018.MapReduce
