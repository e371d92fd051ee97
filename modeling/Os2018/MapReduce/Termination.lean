import Os2018.Library.Termination
import Os2018.MapReduce.Grouping

/-!
# The framework terminates

Three quantities go down in turn. Until the hand-off, a step maps an input, emits
a pair, or brings a thread nearer to the hand-off (`Pipeline.toDo`). In the
hand-off, a round of the shuffle takes at least one pair out of the vectors. And
between two rounds the threads use up permits, the vectors in the queue and the
pairs that `reduce` emits for them (`HandOff.work`): a post costs thread 0 more
than the permit is worth to the thread that takes it.

So the threads cannot go on for ever, in whatever order they are scheduled, and
since some thread can move until all have left, every run comes to its end
(`framework_terminates`).
-/

set_option autoImplicit false

namespace Os2018.MapReduce

open Transition Census Function WeakOrder

universe u v w z

/-! ## The hand-off -/

section HandOff

variable {Source : Type u} {Choice : Type v} {Vec : Type w} {Out : Type z}

/-- The pairs that a call of `reduce` emits. -/
def outputs (reduce : Vec → List Out) (reduceVec : Option Vec) : Nat :=
  (reduceVec.elim [] reduce).length

/-- What a thread has to do before it next waits or leaves. A post leaves room
for the steps of the thread that takes the permit. -/
def HandPoint.work (reduce : Vec → List Out) (threadNum : Nat) : HandPoint Vec Out → Nat
  | .erase => 6 * threadNum + 3
  | .shuffle => 6 * threadNum + 2
  | .post => 6 * threadNum + 8
  | .wake posts => 6 * posts + 1
  | .wait => 0
  | .pop => 4
  | .check _ reduceVec => outputs reduce reduceVec + 3
  | .reduce reduceVec => outputs reduce reduceVec + 2
  | .emit pairs => pairs.length + 1
  | .left => 0

/-- A size of the vectors that a round lowers. -/
structure Shrinks (load : Workload Source Choice Vec Out) (size : Source → Nat) : Prop where
  erase : ∀ vectors, size (load.eraseEmpty vectors) ≤ size vectors
  round : ∀ vectors choice shuffleVec left,
    load.round vectors choice = some (shuffleVec, left) → size left < size vectors

namespace HandOff

variable {n : Nat} {load : Workload Source Choice Vec Out} {s t : HandOff n Source Vec Out}
  {i : Fin (n + 1)} {choice : Choice} {size : Source → Nat}

/-- The work of all threads, and that of those who will take a permit or a vector
that is there. -/
def work (load : Workload Source Choice Vec Out) (s : HandOff n Source Vec Out) : Nat :=
  5 * s.semaphore + (s.shuffleVectors.map fun vec => (load.reduce vec).length).sum +
    total (HandPoint.work load.reduce (n + 1)) s.thread

/-- A round lowers the size, and every other step the work. -/
theorem Step.lower (shrinks : Shrinks load size) (counted : Counted load s) (sized : Sized load s)
    (step : Step load s i choice t) :
    size t.vectors < size s.vectors ∨
      size t.vectors ≤ size s.vectors ∧ t.work load < s.work load := by
  have before : s.work load = 5 * s.semaphore +
      (s.shuffleVectors.map fun vec => (load.reduce vec).length).sum +
        (HandPoint.work load.reduce (n + 1) (s.thread i) +
          others (HandPoint.work load.reduce (n + 1)) s.thread i) := by
    rw [work, total_eq (HandPoint.work load.reduce (n + 1)) s.thread i]
  cases step with
  | push point shuffleVec vectors nonempty round => exact .inl (shrinks.round _ _ _ _ round)
  | erase point =>
      refine .inr ⟨shrinks.erase _, ?_⟩
      rw [before, work, point]
      simp only [goTo, total_update, HandPoint.work]
      omega
  | done point isEmpty =>
      have shuffling := (counted.shuffling i).mp (by rw [point]; trivial)
      have threadNum : s.threadNum = n + 1 := by
        refine sized.read ?_
        rw [← shuffling.1, point]
        intro same
        cases same
      refine .inr ⟨le_rfl, ?_⟩
      rw [before, work, point]
      simp only [goTo, total_update, HandPoint.work, threadNum]
      omega
  | pop point shuffleVectors vec queue =>
      refine .inr ⟨le_rfl, ?_⟩
      rw [before, work, point, queue]
      simp only [goTo, total_update, HandPoint.work, outputs, Option.elim_some, List.map_append,
        List.map_singleton, List.sum_append, List.sum_singleton]
      omega
  | wait point permits semaphore =>
      refine .inr ⟨le_rfl, ?_⟩
      rw [before, work, point, semaphore]
      simp only [goTo, total_update, HandPoint.work]
      omega
  | post point | woken point | wake posts point | popNone point queue | leave reduceVec point flag
  | check queueIsEmpty reduceVec point stays | reduce reduceVec point | again point
  | emit pair pairs point =>
      refine .inr ⟨le_rfl, ?_⟩
      rw [before, work, point]
      simp only [goTo, total_update, HandPoint.work, outputs, Option.elim_none, List.length_nil,
        List.length_cons]
      omega

end HandOff

end HandOff

/-! ## The framework -/

variable {Input : Type w} {K2 : Type u} {V2 : Type v} {Output : Type z}

/-- What a thread has to do before it is in the hand-off, the inputs apart. -/
def Stage.work : Stage K2 V2 → Nat
  | .fetch => 6
  | .map pairs => pairs.length + 7
  | .sort => 5
  | .barrier => 4
  | .blocked => 3
  | .woken => 2
  | .handOff => 1

theorem Stage.work_broadcast (stage : Stage K2 V2) : stage.broadcast.work ≤ stage.work := by
  cases stage <;> simp [broadcast, work]

/-- A round of the shuffle takes a pair out of the vectors. -/
theorem workload_shrinks [DecidableEq K2] [DecidableEq V2]
    {client : MapReduceClient Input K2 V2 Output} (lawful : Lawful client.lt) :
    Shrinks (workload client) fun vectors => vectors.flatten.length where
  erase vectors := by
    have same : ((workload client).eraseEmpty vectors).flatten = vectors.flatten :=
      eraseEmpty_flatten vectors
    rw [same]
  round vectors sorted shuffleVec left round := by
    have moved := (shuffleRound_perm round).length_eq
    have some := List.length_pos_iff.mpr (shuffleRound_uniform lawful round).1
    rw [List.length_append] at moved
    omega

namespace Pipeline

variable {n : Nat} [DecidableEq K2] [DecidableEq V2] {client : MapReduceClient Input K2 V2 Output}
  {inputVector : List Input} {outputVec : List Output} {s t : Pipeline n K2 V2 Output}
  {i : Fin (n + 1)} {result : SortResult K2 V2}

/-- The steps that the inputs not yet fetched and the threads make up to the
hand-off. -/
def toDo (client : MapReduceClient Input K2 V2 Output) (inputVector : List Input)
    (s : Pipeline n K2 V2 Output) : Nat :=
  (((inputVector.mapIdx client.map).drop s.inputVectorIndex).map
    fun pairs => pairs.length + 2).sum + total Stage.work s.stage

/-- The rank of a state. -/
def rank (client : MapReduceClient Input K2 V2 Output) (inputVector : List Input)
    (s : Pipeline n K2 V2 Output) : Nat ×ₗ Nat ×ₗ Nat :=
  toLex (s.toDo client inputVector,
    toLex (s.hand.vectors.flatten.length, s.hand.work (workload client)))

omit [DecidableEq K2] [DecidableEq V2] in
/-- Fetching an input takes it off the list of those to map. -/
theorem sum_drop_of_found {pair : Input} {number : Nat}
    (found : inputVector[number]? = some pair) :
    (((inputVector.mapIdx client.map).drop number).map fun pairs => pairs.length + 2).sum =
      (client.map number pair).length + 2 +
        (((inputVector.mapIdx client.map).drop (number + 1)).map
          fun pairs => pairs.length + 2).sum := by
  obtain ⟨inside, rfl⟩ := List.getElem?_eq_some_iff.mp found
  have inside' : number < (inputVector.mapIdx client.map).length := by
    rwa [List.length_mapIdx]
  rw [List.drop_eq_getElem_cons inside', List.map_cons, List.sum_cons, List.getElem_mapIdx]

/-- Before the hand-off a step lowers what is to do; the hand-off leaves it as it
is. -/
theorem Step.toDo_cases (step : Step client inputVector s i result t) :
    t.toDo client inputVector < s.toDo client inputVector ∨
      t.toDo client inputVector = s.toDo client inputVector ∧ s.stage i = .handOff ∧
        HandOff.Step (workload client) s.hand i result.vectors t.hand := by
  have before : s.toDo client inputVector =
      (((inputVector.mapIdx client.map).drop s.inputVectorIndex).map
        fun pairs => pairs.length + 2).sum +
          ((s.stage i).work + others Stage.work s.stage i) := by
    rw [toDo, total_eq Stage.work s.stage i]
  cases step with
  | handOff stage hand moved => exact .inr ⟨rfl, stage, HandOff.next_step moved⟩
  | fetch stage pair found =>
      left
      rw [before, sum_drop_of_found found, toDo, stage]
      simp only [moveTo, total_update, Stage.work]
      omega
  | exhausted stage none =>
      left
      have nothing : ∀ number, inputVector.length ≤ number →
          (inputVector.mapIdx client.map).drop number = [] := by
        intro number beyond
        rw [List.drop_eq_nil_iff, List.length_mapIdx]
        exact beyond
      rw [before, toDo, stage]
      simp only [moveTo, total_update, Stage.work, nothing _ none,
        nothing _ (Nat.le_succ_of_le none)]
      omega
  | release stage last =>
      left
      have woken : others Stage.work (fun j => (s.stage j).broadcast) i ≤
          others Stage.work s.stage i := others_le (fun j => (s.stage j).work_broadcast) i
      rw [before, toDo, stage]
      simp only [total_update, Stage.work]
      omega
  | mapped stage | emit pair pairs stage | sort stage isSort | wait stage early | wake stage =>
      left
      rw [before, toDo, stage]
      simp only [moveTo, emit2, setIntermediateVec, total_update, Stage.work, List.length_nil,
        List.length_cons]
      omega

theorem Invariant.rank_lt (invariant : Invariant client inputVector outputVec s)
    (lawful : Lawful client.lt) (step : Step client inputVector s i result t) :
    t.rank client inputVector < s.rank client inputVector := by
  rw [rank, rank, Prod.Lex.toLex_lt_toLex]
  rcases step.toDo_cases with lower | ⟨same, -, moved⟩
  · exact .inl lower
  · refine .inr ⟨same, Prod.Lex.toLex_lt_toLex'.mpr ?_⟩
    rcases moved.lower (workload_shrinks lawful) invariant.valid.counted invariant.valid.sized with
      lower | ⟨atMost, lower⟩
    · exact ⟨lower.le, fun same => absurd same lower.ne⟩
    · exact ⟨atMost, fun _ => lower⟩

theorem ranked (lawful : Lawful client.lt) :
    Ranked (scheduled (n := n) client inputVector) (Invariant client inputVector outputVec)
      (rank client inputVector) where
  keep _ _ _ invariant step := invariant.step (next_step step)
  lower _ _ _ invariant step := invariant.rank_lt lawful (next_step step)

/-- **Termination.** For every number of threads, every input and every client
whose order is a strict weak order: from no state that a run reaches does a
schedule go on for ever. Whatever has happened so far, the run goes on to a state
in which all threads have left; and it does not stop before. -/
theorem framework_terminates (client : MapReduceClient Input K2 V2 Output)
    (lawful : Lawful client.lt) (inputVector : List Input) (outputVec : List Output)
    (s : Pipeline n K2 V2 Output)
    (reachable : (system n client inputVector outputVec).Reachable s) :
    ¬ InfiniteRun (scheduled client inputVector) s ∧
    (∃ events t, exec (scheduled client inputVector) s events = some t ∧ ∀ j, t.HasLeft j) ∧
    ∀ events t, exec (scheduled client inputVector) s events = some t →
      ((∀ event, scheduled client inputVector t event = none) ↔ ∀ j, t.HasLeft j) := by
  have invariant := invariant_of_reachable reachable
  have ends : ∀ t : Pipeline n K2 V2 Output, Invariant client inputVector outputVec t →
      (∀ event, scheduled client inputVector t event = none) → ∀ j, t.HasLeft j := by
    intro t invariant ended
    by_contra active
    obtain ⟨j, active⟩ := not_forall.mp active
    obtain ⟨i, result, moves⟩ := invariant.not_stuck lawful active
    rw [show t.next client inputVector i result = none from ended (i, result)] at moves
    cases moves
  refine ⟨(ranked lawful).not_infinite invariant, ?_, ?_⟩
  · obtain ⟨events, t, run, invariant, ended⟩ := (ranked lawful).exists_end invariant
    exact ⟨events, t, run, ends t invariant ended⟩
  · intro events t run
    have after := invariant_of_reachable (exec_reachable reachable run)
    refine ⟨ends t after, fun left event => ?_⟩
    rw [scheduled, next, (left event.1).1]
    simp only [HandOff.next, (left event.1).2, Option.map_none]

/-- Two threads, two inputs, from the start. -/
theorem framework_terminates_parity :
    ¬ InfiniteRun (scheduled parityClient [5, 8]) (init 1 [] : Pipeline 1 Nat Nat (Nat × Nat)) ∧
    ∃ events t, exec (scheduled parityClient [5, 8])
      (init 1 [] : Pipeline 1 Nat Nat (Nat × Nat)) events = some t ∧ ∀ j, t.HasLeft j := by
  obtain ⟨notInfinite, ends, -⟩ :=
    framework_terminates parityClient parityClient_lawful [5, 8] [] (init 1 []) (.init rfl)
  exact ⟨notInfinite, ends⟩

end Pipeline

end Os2018.MapReduce
