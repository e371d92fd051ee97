import Os2018.MapReduce.Barrier
import Os2018.MapReduce.HandOff
import Os2018.MapReduce.Shuffle

/-!
# The framework

`runMapReduceFramework` starts `multiThreadLevel` threads. Each maps inputs, whose
numbers it takes from a shared atomic counter, until there are no more; sorts the
vector of the pairs it emitted; waits at the barrier for the others; and goes on
to the hand-off. A wait on the condition variable of the barrier returns only
after the broadcast.

At every step each pair that `map` emits is in the hands of the thread that maps,
in the vectors of the threads, or in a vector that was pushed (`Accounted`). With
the conservation of the hand-off it follows that the vectors reduced are together
all the pairs emitted (`conservation`). Nothing here depends on the order of the
keys.
-/

set_option autoImplicit false

namespace Os2018.MapReduce

open Transition Census Function WeakOrder

universe u v w z

variable {Input : Type w} {K2 : Type u} {V2 : Type v} {Output : Type z}

/-! ## The code -/

/-- Where a thread is: in `mapPhase`, in `sortPhase`, or past the barrier. -/
inductive Stage (K2 : Type u) (V2 : Type v) where
  | fetch
  | map (pairs : List (IntermediatePair K2 V2))
  | sort
  | barrier
  | blocked
  | woken
  | handOff
deriving DecidableEq, Repr

/-- The shared data and the threads. The vector of vectors of the framework is
the one `shufflePhase` works on. `mapped` and `emitted` record the numbers of the
inputs passed to `map` and the pairs passed to `emit2`. -/
structure Pipeline (n : Nat) (K2 : Type u) (V2 : Type v) (Output : Type z) where
  inputVectorIndex : Nat
  barrier : Barrier
  hand : HandOff n (IntermediateVectors K2 V2) (IntermediateVec K2 V2) Output
  stage : Fin (n + 1) → Stage K2 V2
  mapped : List Nat
  emitted : List (IntermediatePair K2 V2)

/-- What `std::sort` makes of its argument, in a step that sorts. -/
structure SortResult (K2 : Type u) (V2 : Type v) where
  vec : IntermediateVec K2 V2 := []
  vectors : IntermediateVectors K2 V2 := []
deriving DecidableEq, Repr

/-- A waiting thread is woken by the broadcast. -/
def Stage.broadcast : Stage K2 V2 → Stage K2 V2
  | .blocked => .woken
  | stage => stage

/-- The `shufflePhase` and the `reducePhase` of the framework. -/
def workload [DecidableEq K2] [DecidableEq V2] (client : MapReduceClient Input K2 V2 Output) :
    Workload (IntermediateVectors K2 V2) (IntermediateVectors K2 V2) (IntermediateVec K2 V2)
      Output where
  threadNum := List.length
  eraseEmpty := eraseEmpty
  isEmpty := List.isEmpty
  round := shuffleRound client.lt
  reduce := client.reduce

namespace Pipeline

variable {n : Nat}

def init (n : Nat) (outputVec : List Output) : Pipeline n K2 V2 Output where
  inputVectorIndex := 0
  barrier := .init (n + 1)
  hand := .init (List.replicate (n + 1) []) outputVec
  stage := fun _ => .fetch
  mapped := []
  emitted := []

def moveTo (s : Pipeline n K2 V2 Output) (i : Fin (n + 1)) (stage : Stage K2 V2) :
    Pipeline n K2 V2 Output :=
  { s with stage := update s.stage i stage }

/-- `(*tc->intermediateVectors)[tc->threadID]` -/
def intermediateVec (s : Pipeline n K2 V2 Output) (i : Fin (n + 1)) : IntermediateVec K2 V2 :=
  s.hand.vectors.getD i []

def setIntermediateVec (s : Pipeline n K2 V2 Output) (i : Fin (n + 1))
    (vec : IntermediateVec K2 V2) : Pipeline n K2 V2 Output :=
  { s with hand := { s.hand with vectors := s.hand.vectors.set i vec } }

def emit2 (s : Pipeline n K2 V2 Output) (i : Fin (n + 1)) (pair : IntermediatePair K2 V2) :
    Pipeline n K2 V2 Output :=
  { s.setIntermediateVec i (s.intermediateVec i ++ [pair]) with emitted := s.emitted ++ [pair] }

/-- The next step of thread `i`; `none` when it has none. -/
def next [DecidableEq K2] [DecidableEq V2] (client : MapReduceClient Input K2 V2 Output)
    (inputVector : List Input) (s : Pipeline n K2 V2 Output) (i : Fin (n + 1))
    (result : SortResult K2 V2) : Option (Pipeline n K2 V2 Output) :=
  match s.stage i with
  | .fetch =>
      let previousIndex := s.inputVectorIndex
      match inputVector[previousIndex]? with
      | some pair =>
          some { s.moveTo i (.map (client.map previousIndex pair)) with
            inputVectorIndex := previousIndex + 1, mapped := s.mapped ++ [previousIndex] }
      | none => some { s.moveTo i .sort with inputVectorIndex := previousIndex + 1 }
  | .map [] => some (s.moveTo i .fetch)
  | .map (pair :: pairs) => some ((s.emit2 i pair).moveTo i (.map pairs))
  | .sort =>
      if IsSort (intermediatePairComp client.lt) (s.intermediateVec i) result.vec then
        some ((s.setIntermediateVec i result.vec).moveTo i .barrier)
      else none
  | .barrier =>
      match s.barrier.enter with
      | (barrier, true) => some { s.moveTo i .blocked with barrier := barrier }
      | (barrier, false) =>
          some { s with
            barrier := barrier
            stage := update (fun j => (s.stage j).broadcast) i .handOff }
  | .blocked => none
  | .woken => some (s.moveTo i .handOff)
  | .handOff =>
      (s.hand.next (workload client) i result.vectors).map fun hand => { s with hand := hand }

/-- The steps of thread `i`. -/
inductive Step [DecidableEq K2] [DecidableEq V2] (client : MapReduceClient Input K2 V2 Output)
    (inputVector : List Input) (s : Pipeline n K2 V2 Output) (i : Fin (n + 1))
    (result : SortResult K2 V2) : Pipeline n K2 V2 Output → Prop where
  | fetch (stage : s.stage i = .fetch) (pair : Input)
      (found : inputVector[s.inputVectorIndex]? = some pair) :
      Step client inputVector s i result
        { s.moveTo i (.map (client.map s.inputVectorIndex pair)) with
          inputVectorIndex := s.inputVectorIndex + 1
          mapped := s.mapped ++ [s.inputVectorIndex] }
  | exhausted (stage : s.stage i = .fetch)
      (none : inputVector.length ≤ s.inputVectorIndex) :
      Step client inputVector s i result
        { s.moveTo i .sort with inputVectorIndex := s.inputVectorIndex + 1 }
  | mapped (stage : s.stage i = .map []) :
      Step client inputVector s i result (s.moveTo i .fetch)
  | emit (pair : IntermediatePair K2 V2) (pairs : List (IntermediatePair K2 V2))
      (stage : s.stage i = .map (pair :: pairs)) :
      Step client inputVector s i result ((s.emit2 i pair).moveTo i (.map pairs))
  | sort (stage : s.stage i = .sort)
      (isSort : IsSort (intermediatePairComp client.lt) (s.intermediateVec i) result.vec) :
      Step client inputVector s i result
        ((s.setIntermediateVec i result.vec).moveTo i .barrier)
  | wait (stage : s.stage i = .barrier) (early : s.barrier.count + 1 < s.barrier.numThreads) :
      Step client inputVector s i result { s.moveTo i .blocked with
        barrier := { s.barrier with count := s.barrier.count + 1 } }
  | release (stage : s.stage i = .barrier)
      (last : s.barrier.numThreads ≤ s.barrier.count + 1) :
      Step client inputVector s i result { s with
        barrier := { s.barrier with count := 0 }
        stage := update (fun j => (s.stage j).broadcast) i .handOff }
  | wake (stage : s.stage i = .woken) :
      Step client inputVector s i result (s.moveTo i .handOff)
  | handOff (stage : s.stage i = .handOff)
      (hand : HandOff n (IntermediateVectors K2 V2) (IntermediateVec K2 V2) Output)
      (moved : s.hand.next (workload client) i result.vectors = some hand) :
      Step client inputVector s i result { s with hand := hand }

variable [DecidableEq K2] [DecidableEq V2] {client : MapReduceClient Input K2 V2 Output}
  {inputVector : List Input} {s t : Pipeline n K2 V2 Output} {i : Fin (n + 1)}
  {result : SortResult K2 V2}

theorem next_step (step : s.next client inputVector i result = some t) :
    Step client inputVector s i result t := by
  cases stage : s.stage i with
  | fetch =>
      simp only [next, stage] at step
      split at step
      · exact Option.some.inj step ▸ .fetch stage _ ‹_›
      · exact Option.some.inj step ▸ .exhausted stage (List.getElem?_eq_none_iff.mp ‹_›)
  | map pairs =>
      cases pairs with
      | nil =>
          simp only [next, stage, Option.some.injEq] at step
          exact step ▸ .mapped stage
      | cons pair pairs =>
          simp only [next, stage, Option.some.injEq] at step
          exact step ▸ .emit pair pairs stage
  | sort =>
      simp only [next, stage] at step
      split at step
      · exact Option.some.inj step ▸ .sort stage ‹_›
      · cases step
  | barrier =>
      by_cases early : s.barrier.count + 1 < s.barrier.numThreads
      · simp only [next, stage, Barrier.enter, if_pos early, Option.some.injEq] at step
        exact step ▸ .wait stage early
      · simp only [next, stage, Barrier.enter, if_neg early, Option.some.injEq] at step
        exact step ▸ .release stage (Nat.le_of_not_lt early)
  | blocked =>
      simp only [next, stage] at step
      cases step
  | woken =>
      simp only [next, stage, Option.some.injEq] at step
      exact step ▸ .wake stage
  | handOff =>
      simp only [next, stage] at step
      obtain ⟨hand, moved, rfl⟩ := Option.map_eq_some_iff.mp step
      exact .handOff stage hand moved

/-- A scheduled step. -/
def scheduled (client : MapReduceClient Input K2 V2 Output) (inputVector : List Input)
    (s : Pipeline n K2 V2 Output) (event : Fin (n + 1) × SortResult K2 V2) :
    Option (Pipeline n K2 V2 Output) :=
  s.next client inputVector event.1 event.2

/-- The steps of the threads in any order. -/
def system (n : Nat) (client : MapReduceClient Input K2 V2 Output) (inputVector : List Input)
    (outputVec : List Output) :
    System (Pipeline n K2 V2 Output) (Fin (n + 1) × SortResult K2 V2) :=
  System.ofFunction (scheduled client inputVector) (init n outputVec)

/-- The thread has returned from `reducePhase`. -/
def HasLeft (s : Pipeline n K2 V2 Output) (i : Fin (n + 1)) : Prop :=
  s.stage i = .handOff ∧ s.hand.thread i = .left

instance [DecidableEq Output] (s : Pipeline n K2 V2 Output) (i : Fin (n + 1)) :
    Decidable (s.HasLeft i) :=
  inferInstanceAs (Decidable (_ ∧ _))

/-- A step of the thread with the given number. -/
def stepOf (thread : Nat) (result : SortResult K2 V2) : Fin (n + 1) × SortResult K2 V2 :=
  (⟨thread % (n + 1), Nat.mod_lt thread n.succ_pos⟩, result)

/-- Steps of one thread that sort nothing. -/
def steps (thread count : Nat) : List (Fin (n + 1) × SortResult K2 V2) :=
  List.replicate count (stepOf thread {})

end Pipeline

end Os2018.MapReduce
