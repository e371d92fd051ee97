import Os2018.MapReduce.Pipeline

/-!
# Every pair is reduced once

Up to the barrier the threads only add to their own vectors (`Early`). The last
thread to arrive lets all go on at once, and from then on every step is one of
the hand-off or the return of a woken thread (`Late`).

In both phases the pairs emitted are those in the vectors of the threads and
those pushed (`Accounted.placed`): a thread adds its pair to both sides, sorting
and the erasure of empty vectors change nothing, and a round moves pairs from the
vectors to the one it pushes.
-/

set_option autoImplicit false

namespace Os2018.MapReduce

open Transition Census Function WeakOrder
open scoped List

universe u v w z

variable {Input : Type w} {K2 : Type u} {V2 : Type v} {Output : Type z}

/-- Replacing one vector by another that has some pairs more. -/
theorem flatten_set_perm {vectors : IntermediateVectors K2 V2} {i : Nat}
    {vec extra : IntermediateVec K2 V2} (inside : i < vectors.length)
    (grown : vec ~ vectors.getD i [] ++ extra) :
    (vectors.set i vec).flatten ~ vectors.flatten ++ extra := by
  induction vectors generalizing i with
  | nil => cases inside
  | cons first vectors ih =>
      cases i with
      | zero =>
          simp only [List.set_cons_zero, List.flatten_cons]
          calc vec ++ vectors.flatten
            _ ~ first ++ extra ++ vectors.flatten := grown.append_right _
            _ ~ first ++ (vectors.flatten ++ extra) := by
                rw [List.append_assoc]
                exact List.perm_append_comm.append_left first
            _ = first ++ vectors.flatten ++ extra := (List.append_assoc ..).symm
      | succ i =>
          simp only [List.set_cons_succ, List.flatten_cons, List.append_assoc]
          exact (ih (Nat.lt_of_succ_lt_succ inside) grown).append_left first

/-! ## Phases -/

namespace Stage

/-- Before the barrier, or waiting at it. -/
def Early : Stage K2 V2 → Prop
  | .woken => False
  | .handOff => False
  | _ => True

/-- Has sorted its vector. -/
def Arranged : Stage K2 V2 → Prop
  | .barrier => True
  | .blocked => True
  | _ => False

/-- Has seen that there are no more inputs. -/
def Exhausted : Stage K2 V2 → Prop
  | .fetch => False
  | .map _ => False
  | _ => True

def waiting : Stage K2 V2 → Nat
  | .blocked => 1
  | _ => 0

/-- The pairs the client's `map` has still to emit. -/
def toEmit : Stage K2 V2 → Multiset (IntermediatePair K2 V2)
  | .map pairs => pairs
  | _ => 0

@[simp] theorem toEmit_broadcast (stage : Stage K2 V2) : stage.broadcast.toEmit = stage.toEmit := by
  cases stage <;> rfl

@[simp] theorem exhausted_broadcast (stage : Stage K2 V2) :
    stage.broadcast.Exhausted ↔ stage.Exhausted := by
  cases stage <;> rfl

theorem waiting_le_one (stage : Stage K2 V2) : stage.waiting ≤ 1 := by
  cases stage <;> simp [waiting]

theorem eq_blocked (stage : Stage K2 V2) (waits : stage.waiting = 1) : stage = .blocked := by
  cases stage with
  | blocked => rfl
  | _ => cases waits

end Stage

open Stage

namespace Pipeline

variable {n : Nat} {client : MapReduceClient Input K2 V2 Output} {inputVector : List Input}
  {outputVec : List Output} {s t : Pipeline n K2 V2 Output} {i : Fin (n + 1)}

theorem setIntermediateVec_self (size : s.hand.vectors.length = n + 1)
    (vec : IntermediateVec K2 V2) : (s.setIntermediateVec i vec).intermediateVec i = vec := by
  have inside : (i : Nat) < s.hand.vectors.length := by omega
  simp [setIntermediateVec, intermediateVec, inside]

theorem setIntermediateVec_of_ne {j : Fin (n + 1)} (other : j ≠ i)
    (vec : IntermediateVec K2 V2) :
    (s.setIntermediateVec i vec).intermediateVec j = s.intermediateVec j := by
  have different : (i : Nat) ≠ j := fun same => other (Fin.ext same.symm)
  simp [setIntermediateVec, intermediateVec, List.getElem?_set_ne different]

/-- No thread has passed the barrier. -/
structure Early (client : MapReduceClient Input K2 V2 Output) (outputVec : List Output)
    (s : Pipeline n K2 V2 Output) : Prop where
  stages : ∀ j, (s.stage j).Early
  hand : s.hand = .init s.hand.vectors outputVec
  size : s.hand.vectors.length = n + 1
  arranged : ∀ j, (s.stage j).Arranged →
    Sorted (intermediatePairComp client.lt) (s.intermediateVec j)
  count : s.barrier.count = total waiting s.stage
  incomplete : s.barrier.count < n + 1

theorem early_init : Early client outputVec (init n outputVec) where
  stages := fun _ => trivial
  hand := rfl
  size := List.length_replicate
  arranged := fun _ arranged => arranged.elim
  count := (total_eq_zero fun _ => rfl).symm
  incomplete := Nat.succ_pos n

/-- A thread that has not sorted its vector changes it. -/
theorem Early.set (early : Early client outputVec s) (unsorted : ¬ (s.stage i).Arranged)
    (vec : IntermediateVec K2 V2) : Early client outputVec (s.setIntermediateVec i vec) where
  stages := early.stages
  hand := by
    simp only [setIntermediateVec]
    rw [early.hand]
    rfl
  size := List.length_set.trans early.size
  arranged := by
    intro j arranged
    by_cases mover : j = i
    · exact absurd (mover ▸ arranged) unsorted
    · rw [setIntermediateVec_of_ne mover]
      exact early.arranged j arranged
  count := early.count
  incomplete := early.incomplete

/-- A thread goes on, up to the barrier. -/
theorem Early.move (early : Early client outputVec s) {stage : Stage K2 V2}
    (stages : t.stage = update s.stage i stage) (hand : t.hand = s.hand)
    (barrier : t.barrier = s.barrier) (isEarly : stage.Early)
    (same : (s.stage i).waiting = stage.waiting)
    (arranged : stage.Arranged →
      Sorted (intermediatePairComp client.lt) (s.intermediateVec i)) :
    Early client outputVec t where
  stages := by
    rw [stages]
    exact (forall_update_iff s.stage fun _ stage => stage.Early).mpr
      ⟨isEarly, fun j _ => early.stages j⟩
  hand := hand ▸ early.hand
  size := hand ▸ early.size
  arranged := by
    rw [stages, show t.intermediateVec = s.intermediateVec by
      simp only [funext_iff, intermediateVec, hand, implies_true]]
    exact (forall_update_iff s.stage fun j stage => stage.Arranged →
      Sorted (intermediatePairComp client.lt) (s.intermediateVec j)).mpr
        ⟨arranged, fun j _ => early.arranged j⟩
  count := by
    rw [barrier, early.count, stages, total_update, total_eq waiting s.stage i, same]
  incomplete := barrier ▸ early.incomplete

/-- A thread that is not the last waits at the barrier. -/
theorem Early.wait (early : Early client outputVec s) (stage : s.stage i = .barrier)
    (notLast : s.barrier.count + 1 < n + 1) :
    Early client outputVec { s.moveTo i .blocked with
      barrier := { s.barrier with count := s.barrier.count + 1 } } where
  stages := (forall_update_iff s.stage fun _ stage => stage.Early).mpr
    ⟨trivial, fun j _ => early.stages j⟩
  hand := early.hand
  size := early.size
  arranged := (forall_update_iff s.stage fun j stage => stage.Arranged →
      Sorted (intermediatePairComp client.lt) (s.intermediateVec j)).mpr
    ⟨fun _ => early.arranged i (by rw [stage]; trivial), fun j _ => early.arranged j⟩
  count := by
    simp only [moveTo, early.count, total_update, total_eq waiting s.stage i, stage, waiting]
    omega
  incomplete := notLast

/-- When the last thread arrives, all others wait. -/
theorem Early.others_blocked (early : Early client outputVec s) (stage : s.stage i = .barrier)
    (last : n + 1 ≤ s.barrier.count + 1) {j : Fin (n + 1)} (other : j ≠ i) :
    s.stage j = .blocked := by
  have light : waiting (s.stage i) = 0 := by
    rw [stage]
    rfl
  have full : Fintype.card (Fin (n + 1)) ≤ total waiting s.stage + 1 := by
    rw [Fintype.card_fin, ← early.count]
    exact last
  exact eq_of_card_le waiting_le_one eq_blocked light full other

/-! ## Accounts -/

/-- The pairs that `map` emits for the input of the given number. -/
def mapCall (client : MapReduceClient Input K2 V2 Output) (inputVector : List Input)
    (number : Nat) : List (IntermediatePair K2 V2) :=
  inputVector[number]?.elim [] (client.map number)

/-- Each input below the index has been passed to `map` once; the pairs of these
calls have been emitted or are still to be; the pairs emitted are in the vectors
of the threads or have been pushed. -/
structure Accounted (client : MapReduceClient Input K2 V2 Output) (inputVector : List Input)
    (s : Pipeline n K2 V2 Output) : Prop where
  mapped : s.mapped = List.range (min s.inputVectorIndex inputVector.length)
  exhausted : ∀ j, (s.stage j).Exhausted → inputVector.length ≤ s.inputVectorIndex
  emitted : (s.emitted : Multiset (IntermediatePair K2 V2)) + total toEmit s.stage =
    (s.mapped.flatMap (mapCall client inputVector) : Multiset (IntermediatePair K2 V2))
  placed : s.emitted ~ s.hand.pushed.flatten ++ s.hand.vectors.flatten

theorem accounted_init : Accounted client inputVector (init n outputVec) where
  mapped := by simp [init]
  exhausted := fun _ exhausted => exhausted.elim
  emitted := by
    have none : total toEmit (init n outputVec : Pipeline n K2 V2 Output).stage = 0 :=
      total_eq_zero fun _ => rfl
    rw [none]
    rfl
  placed := by simp [init, HandOff.init]

/-- Thread `i` moves and does nothing to the inputs. -/
theorem Accounted.move (accounted : Accounted client inputVector s) {stage : Stage K2 V2}
    (stages : t.stage = update s.stage i stage) (index : t.inputVectorIndex = s.inputVectorIndex)
    (mapped : t.mapped = s.mapped)
    (exhausted : stage.Exhausted → (s.stage i).Exhausted)
    (emitted : (t.emitted : Multiset (IntermediatePair K2 V2)) + stage.toEmit =
      s.emitted + (s.stage i).toEmit)
    (placed : t.emitted ~ t.hand.pushed.flatten ++ t.hand.vectors.flatten) :
    Accounted client inputVector t where
  mapped := by rw [mapped, index, accounted.mapped]
  exhausted := by
    rw [stages, index]
    exact (forall_update_iff s.stage fun _ stage =>
      stage.Exhausted → inputVector.length ≤ s.inputVectorIndex).mpr
        ⟨fun now => accounted.exhausted i (exhausted now), fun j _ => accounted.exhausted j⟩
  emitted := by
    rw [mapped, ← accounted.emitted, stages, total_update, total_eq toEmit s.stage i, ← add_assoc,
      emitted, add_assoc]
  placed := placed

/-- A thread fetches the next index. -/
theorem Accounted.fetch (accounted : Accounted client inputVector s) (stage : s.stage i = .fetch)
    {pair : Input} (found : inputVector[s.inputVectorIndex]? = some pair) :
    Accounted client inputVector { s.moveTo i (.map (client.map s.inputVectorIndex pair)) with
      inputVectorIndex := s.inputVectorIndex + 1
      mapped := s.mapped ++ [s.inputVectorIndex] } where
  mapped := by
    obtain ⟨inside, -⟩ := List.getElem?_eq_some_iff.mp found
    rw [accounted.mapped, min_eq_left inside.le, min_eq_left inside, List.range_succ]
  exhausted := by
    obtain ⟨inside, -⟩ := List.getElem?_eq_some_iff.mp found
    refine (forall_update_iff s.stage fun _ stage => stage.Exhausted →
      inputVector.length ≤ s.inputVectorIndex + 1).mpr ⟨fun exhausted => exhausted.elim, ?_⟩
    intro j _ exhausted
    exact absurd (accounted.exhausted j exhausted) (Nat.not_le_of_lt inside)
  emitted := by
    have before := accounted.emitted
    rw [total_eq toEmit s.stage i, stage] at before
    simp only [moveTo, total_update, toEmit] at before ⊢
    rw [List.flatMap_append, ← Multiset.coe_add, ← before, List.flatMap_singleton, mapCall, found,
      Option.elim_some]
    abel
  placed := accounted.placed

/-- A thread finds that there are no more inputs. -/
theorem Accounted.exhaust (accounted : Accounted client inputVector s)
    (stage : s.stage i = .fetch) (none : inputVector.length ≤ s.inputVectorIndex) :
    Accounted client inputVector
      { s.moveTo i .sort with inputVectorIndex := s.inputVectorIndex + 1 } where
  mapped := by
    simp only [moveTo]
    rw [accounted.mapped, min_eq_right none, min_eq_right (Nat.le_succ_of_le none)]
  exhausted := fun _ _ => Nat.le_succ_of_le none
  emitted := by
    have before := accounted.emitted
    rw [total_eq toEmit s.stage i, stage] at before
    simpa only [moveTo, total_update, toEmit] using before
  placed := accounted.placed

theorem Accounted.emit (accounted : Accounted client inputVector s)
    (size : s.hand.vectors.length = n + 1) {pair : IntermediatePair K2 V2}
    {pairs : List (IntermediatePair K2 V2)} (stage : s.stage i = .map (pair :: pairs)) :
    Accounted client inputVector ((s.emit2 i pair).moveTo i (.map pairs)) := by
  refine accounted.move rfl rfl rfl (fun exhausted => exhausted.elim) ?_ ?_
  · rw [stage]
    simp only [moveTo, emit2, setIntermediateVec, toEmit]
    rw [← Multiset.coe_add, ← Multiset.cons_coe pair pairs, ← Multiset.singleton_add,
      Multiset.coe_singleton, add_assoc]
  · have inside : (i : Nat) < s.hand.vectors.length := by omega
    have grown : (s.hand.vectors.set i (s.intermediateVec i ++ [pair])).flatten ~
        s.hand.vectors.flatten ++ [pair] := flatten_set_perm inside (.refl _)
    calc s.emitted ++ [pair]
      _ ~ s.hand.pushed.flatten ++ s.hand.vectors.flatten ++ [pair] :=
          accounted.placed.append_right _
      _ ~ s.hand.pushed.flatten ++
          (s.hand.vectors.set i (s.intermediateVec i ++ [pair])).flatten := by
            rw [List.append_assoc]
            exact grown.symm.append_left _

theorem Accounted.sort (accounted : Accounted client inputVector s)
    (size : s.hand.vectors.length = n + 1) (stage : s.stage i = .sort)
    {vec : IntermediateVec K2 V2} (perm : vec ~ s.intermediateVec i) :
    Accounted client inputVector ((s.setIntermediateVec i vec).moveTo i .barrier) := by
  refine accounted.move rfl rfl rfl (fun _ => by rw [stage]; trivial) ?_ ?_
  · rw [stage]
    rfl
  · have inside : (i : Nat) < s.hand.vectors.length := by omega
    have same : (s.hand.vectors.set i vec).flatten ~ s.hand.vectors.flatten ++ [] :=
      flatten_set_perm inside (by rwa [List.append_nil])
    rw [List.append_nil] at same
    exact accounted.placed.trans (same.symm.append_left _)

/-- A thread goes on without emitting. -/
theorem Accounted.goOn (accounted : Accounted client inputVector s) {stage : Stage K2 V2}
    (exhausted : stage.Exhausted → (s.stage i).Exhausted)
    (same : stage.toEmit = (s.stage i).toEmit) :
    Accounted client inputVector (s.moveTo i stage) :=
  accounted.move rfl rfl rfl exhausted (by rw [same]; rfl) accounted.placed

/-- The broadcast and the last thread's return. -/
theorem Accounted.release (accounted : Accounted client inputVector s)
    (stage : s.stage i = .barrier) :
    Accounted client inputVector { s with
      barrier := { s.barrier with count := 0 }
      stage := update (fun j => (s.stage j).broadcast) i .handOff } := by
  have broadcast : Accounted client inputVector
      { s with stage := fun j => (s.stage j).broadcast } := by
    refine ⟨accounted.mapped, fun j exhausted => accounted.exhausted j ?_, ?_, accounted.placed⟩
    · exact (exhausted_broadcast (s.stage j)).mp exhausted
    · rw [← accounted.emitted]
      exact congrArg _ (total_congr fun j => toEmit_broadcast (s.stage j))
  refine broadcast.move rfl rfl rfl (fun _ => ?_) ?_ accounted.placed
  · simp only [stage]
    trivial
  · simp only [stage]
    rfl

/-! ## Past the barrier -/

variable [DecidableEq K2] [DecidableEq V2]

/-- All threads have passed the barrier. -/
structure Late (client : MapReduceClient Input K2 V2 Output) (outputVec : List Output)
    (s : Pipeline n K2 V2 Output) : Prop where
  stages : ∀ j, s.stage j = .woken ∨ s.stage j = .handOff
  valid : s.hand.Valid (workload client) outputVec
  ordered : ∀ vec ∈ s.hand.vectors, Sorted (intermediatePairComp client.lt) vec
  nonempty : s.hand.thread 0 ≠ .erase → ∀ vec ∈ s.hand.vectors, vec ≠ []

/-- The last thread to arrive wakes the others. -/
theorem Early.release (early : Early client outputVec s) (stage : s.stage i = .barrier)
    (last : n + 1 ≤ s.barrier.count + 1) :
    Late client outputVec { s with
      barrier := { s.barrier with count := 0 }
      stage := update (fun j => (s.stage j).broadcast) i .handOff } where
  stages := by
    refine (forall_update_iff (fun j => (s.stage j).broadcast)
      fun _ stage => stage = Stage.woken ∨ stage = Stage.handOff).mpr ⟨.inr rfl, ?_⟩
    intro j other
    rw [early.others_blocked stage last other]
    exact .inl rfl
  valid := by
    rw [show ({ s with barrier := _, stage := _ } : Pipeline n K2 V2 Output).hand =
      .init s.hand.vectors outputVec from early.hand]
    exact HandOff.valid_init early.size
  ordered := by
    intro vec member
    obtain ⟨j, inside, rfl⟩ := List.mem_iff_getElem.mp member
    have position : j < n + 1 := early.size ▸ inside
    have arranged : (s.stage ⟨j, position⟩).Arranged := by
      by_cases mover : (⟨j, position⟩ : Fin (n + 1)) = i
      · rw [mover, stage]
        trivial
      · rw [early.others_blocked stage last mover]
        trivial
    simpa [intermediateVec, List.getElem?_eq_getElem inside] using early.arranged _ arranged
  nonempty := by
    intro passed
    refine absurd ?_ passed
    rw [show ({ s with barrier := _, stage := _ } : Pipeline n K2 V2 Output).hand =
      .init s.hand.vectors outputVec from early.hand]
    rfl

theorem Late.wake (late : Late client outputVec s) :
    Late client outputVec (s.moveTo i .handOff) where
  stages := (forall_update_iff s.stage
    fun _ stage => stage = Stage.woken ∨ stage = Stage.handOff).mpr
      ⟨.inr rfl, fun j _ => late.stages j⟩
  valid := late.valid
  ordered := late.ordered
  nonempty := late.nonempty

theorem Late.handOff {sorted : IntermediateVectors K2 V2}
    {hand : HandOff n (IntermediateVectors K2 V2) (IntermediateVec K2 V2) Output}
    (late : Late client outputVec s) (step : HandOff.Step (workload client) s.hand i sorted hand) :
    Late client outputVec { s with hand := hand } := by
  suffices vectors : (∀ vec ∈ hand.vectors, Sorted (intermediatePairComp client.lt) vec) ∧
      (hand.thread 0 ≠ .erase → ∀ vec ∈ hand.vectors, vec ≠ []) from
    ⟨late.stages, late.valid.step step, vectors.1, vectors.2⟩
  rcases step.source_cases with ⟨-, erased, -⟩ |
    ⟨point, -, shuffleVec, left, round, rfl, -⟩ | ⟨notErase, -, unchanged, -⟩
  · rw [erased]
    constructor
    · exact fun vec member => late.ordered vec (List.mem_of_mem_filter member)
    · rintro - vec member rfl
      cases (List.mem_filter.mp member).2
  · obtain ⟨rfl, -⟩ := (late.valid.counted.shuffling i).mp (by rw [point]; trivial)
    have wellFormed := shuffleRound_left round (late.nonempty (by rw [point]; nofun)) late.ordered
    exact ⟨fun vec member => (wellFormed vec member).2,
      fun _ vec member => (wellFormed vec member).1⟩
  · rw [unchanged]
    refine ⟨late.ordered, fun passed => late.nonempty fun unread => ?_⟩
    by_cases zero : 0 = i
    · exact notErase (zero ▸ unread)
    · exact passed ((step.thread_of_ne zero).trans unread)

theorem Accounted.handOff {sorted : IntermediateVectors K2 V2}
    {hand : HandOff n (IntermediateVectors K2 V2) (IntermediateVec K2 V2) Output}
    (accounted : Accounted client inputVector s)
    (step : HandOff.Step (workload client) s.hand i sorted hand) :
    Accounted client inputVector { s with hand := hand } where
  mapped := accounted.mapped
  exhausted := accounted.exhausted
  emitted := accounted.emitted
  placed := by
    refine step.supply (R := fun pushed vectors => s.emitted ~ pushed.flatten ++ vectors.flatten)
      ?_ ?_ accounted.placed
    · intro pushed vectors placed
      exact placed.trans (List.Perm.of_eq (congrArg _ (eraseEmpty_flatten _).symm))
    · intro pushed vectors sorted shuffleVec left placed round
      rw [List.flatten_concat, List.append_assoc]
      exact placed.trans ((shuffleRound_perm round).symm.append_left _)

/-! ## Runs -/

/-- What holds in every state of the framework. -/
structure Invariant (client : MapReduceClient Input K2 V2 Output) (inputVector : List Input)
    (outputVec : List Output) (s : Pipeline n K2 V2 Output) : Prop where
  numThreads : s.barrier.numThreads = n + 1
  phase : Early client outputVec s ∨ Late client outputVec s
  accounted : Accounted client inputVector s

theorem invariant_init : Invariant client inputVector outputVec (init n outputVec) :=
  ⟨rfl, .inl early_init, accounted_init⟩

theorem Invariant.early (invariant : Invariant client inputVector outputVec s)
    (stage : (s.stage i).Early) : Early client outputVec s := by
  apply invariant.phase.resolve_right
  intro late
  rcases late.stages i with point | point <;> exact (point ▸ stage : Stage.Early _)

theorem Invariant.late (invariant : Invariant client inputVector outputVec s)
    (stage : ¬ (s.stage i).Early) : Late client outputVec s :=
  invariant.phase.resolve_left fun early => stage (early.stages i)

theorem Invariant.step {result : SortResult K2 V2}
    (invariant : Invariant client inputVector outputVec s)
    (step : Step client inputVector s i result t) :
    Invariant client inputVector outputVec t := by
  have numThreads := invariant.numThreads
  have accounted := invariant.accounted
  cases step with
  | fetch stage pair found =>
      have early := invariant.early (i := i) (by rw [stage]; trivial)
      exact ⟨numThreads, .inl (early.move rfl rfl rfl trivial (by rw [stage]; rfl) False.elim),
        accounted.fetch stage found⟩
  | exhausted stage none =>
      have early := invariant.early (i := i) (by rw [stage]; trivial)
      exact ⟨numThreads, .inl (early.move rfl rfl rfl trivial (by rw [stage]; rfl) False.elim),
        accounted.exhaust stage none⟩
  | mapped stage =>
      have early := invariant.early (i := i) (by rw [stage]; trivial)
      exact ⟨numThreads, .inl (early.move rfl rfl rfl trivial (by rw [stage]; rfl) False.elim),
        accounted.goOn False.elim (by rw [stage]; rfl)⟩
  | emit pair pairs stage =>
      have early := invariant.early (i := i) (by rw [stage]; trivial)
      have stored := early.set (i := i) (by rw [stage]; exact id) (s.intermediateVec i ++ [pair])
      exact ⟨numThreads, .inl (stored.move rfl rfl rfl trivial (by
        rw [show (s.setIntermediateVec i _).stage i = _ from stage]; rfl) False.elim),
        accounted.emit early.size stage⟩
  | sort stage isSort =>
      have early := invariant.early (i := i) (by rw [stage]; trivial)
      have stored := early.set (i := i) (by rw [stage]; exact id) result.vec
      refine ⟨numThreads, .inl (stored.move rfl rfl rfl trivial ?_ fun _ => ?_),
        accounted.sort early.size stage isSort.1⟩
      · rw [show (s.setIntermediateVec i _).stage i = _ from stage]
        rfl
      · rw [setIntermediateVec_self early.size]
        exact isSort.2
  | wait stage notLast =>
      have early := invariant.early (i := i) (by rw [stage]; trivial)
      refine ⟨numThreads, .inl (early.wait stage (numThreads ▸ notLast)), ?_⟩
      exact accounted.move rfl rfl rfl (fun _ => by rw [stage]; trivial) (by rw [stage]; rfl)
        accounted.placed
  | release stage last =>
      have early := invariant.early (i := i) (by rw [stage]; trivial)
      exact ⟨numThreads, .inr (early.release stage (numThreads ▸ last)), accounted.release stage⟩
  | wake stage =>
      have late := invariant.late (i := i) (by rw [stage]; exact id)
      exact ⟨numThreads, .inr late.wake,
        accounted.goOn (fun _ => by rw [stage]; trivial) (by rw [stage]; rfl)⟩
  | handOff stage hand moved =>
      have late := invariant.late (i := i) (by rw [stage]; exact id)
      have step := HandOff.next_step moved
      exact ⟨numThreads, .inr (late.handOff step), accounted.handOff step⟩

theorem Invariant.valid (invariant : Invariant client inputVector outputVec s) :
    s.hand.Valid (workload client) outputVec := by
  rcases invariant.phase with early | late
  · rw [early.hand]
    exact HandOff.valid_init early.size
  · exact late.valid

/-- Before the barrier a thread can move unless it waits there. -/
theorem Early.can_move (early : Early client outputVec s) (lawful : Lawful client.lt)
    (notBlocked : s.stage i ≠ .blocked) :
    ∃ result, (s.next client inputVector i result).isSome := by
  have isEarly := early.stages i
  cases stage : s.stage i with
  | woken | handOff =>
      rw [stage] at isEarly
      exact isEarly.elim
  | fetch =>
      refine ⟨{}, ?_⟩
      simp only [next, stage]
      split <;> rfl
  | map pairs => cases pairs <;> exact ⟨{}, by simp [next, stage]⟩
  | sort =>
      obtain ⟨vec, isSort⟩ :=
        (intermediatePairComp_lawful lawful).exists_isSort (s.intermediateVec i)
      exact ⟨{ vec := vec }, by simp [next, stage, isSort]⟩
  | barrier =>
      refine ⟨{}, ?_⟩
      simp only [next, stage]
      split <;> rfl
  | blocked => exact absurd stage notBlocked

theorem Late.not_stuck (late : Late client outputVec s) (active : ¬ s.HasLeft i) :
    ∃ j result, (s.next client inputVector j result).isSome := by
  by_cases returned : ∀ j, s.stage j = .handOff
  · have notLeft : s.hand.thread i ≠ .left := fun left => active ⟨returned i, left⟩
    have rounds : ∀ j, s.hand.thread j = .shuffle →
        (workload client).isEmpty s.hand.vectors = false →
          ∃ sorted, ((workload client).round s.hand.vectors sorted).isSome := by
      intro j point notEmpty
      obtain ⟨rfl, -⟩ := (late.valid.counted.shuffling j).mp (by rw [point]; trivial)
      refine exists_shuffleRound (fun none => ?_) (late.nonempty (by rw [point]; nofun))
      cases none ▸ notEmpty
    obtain ⟨j, sorted, moves⟩ := late.valid.counted.not_stuck late.valid.sized rounds ⟨[]⟩ notLeft
    exact ⟨j, { vectors := sorted }, by simpa [next, returned j] using moves⟩
  · simp only [not_forall] at returned
    obtain ⟨j, notReturned⟩ := returned
    have woken := (late.stages j).resolve_right notReturned
    exact ⟨j, {}, by simp [next, woken]⟩

/-- Some thread can move as long as one has not left: the last thread to arrive
does not wait at the barrier. -/
theorem Invariant.not_stuck (invariant : Invariant client inputVector outputVec s)
    (lawful : Lawful client.lt) (active : ¬ s.HasLeft i) :
    ∃ j result, (s.next client inputVector j result).isSome := by
  rcases invariant.phase with early | late
  · by_cases blocked : ∀ j, s.stage j = .blocked
    · have count := early.count
      rw [show s.stage = fun _ => .blocked from funext blocked, total_const] at count
      simp only [Fintype.card_fin, waiting, nsmul_one, Nat.cast_id] at count
      exact absurd early.incomplete (by omega)
    · simp only [not_forall] at blocked
      obtain ⟨j, notBlocked⟩ := blocked
      exact ⟨j, early.can_move lawful notBlocked⟩
  · exact late.not_stuck active

omit [DecidableEq K2] [DecidableEq V2] in
theorem flatMap_mapCall :
    (List.range inputVector.length).flatMap (mapCall client inputVector) =
      (inputVector.mapIdx client.map).flatten := by
  rw [List.flatMap_def]
  refine congrArg List.flatten (List.ext_getElem (by simp) fun number _ inside => ?_)
  rw [List.length_mapIdx] at inside
  simp [mapCall, List.getElem?_eq_getElem inside]

/-- When all threads have left, the vectors reduced are those pushed, and they
are all the pairs that `map` emits. -/
theorem Invariant.settled (invariant : Invariant client inputVector outputVec s)
    (left : ∀ i, s.HasLeft i) :
    s.mapped = List.range inputVector.length ∧
      s.emitted ~ (inputVector.mapIdx client.map).flatten ∧ s.emitted ~ s.hand.pushed.flatten := by
  have accounted := invariant.accounted
  have exhausted := accounted.exhausted 0 (by rw [(left 0).1]; trivial)
  have mapped := accounted.mapped
  rw [min_eq_right exhausted] at mapped
  have emitted := accounted.emitted
  rw [total_eq_zero fun j => by rw [(left j).1]; rfl, add_zero, mapped, flatMap_mapCall,
    Multiset.coe_eq_coe] at emitted
  have counted := invariant.valid.counted
  obtain ⟨flag, -⟩ := counted.sawEnd 0 (by rw [(left 0).2]; trivial)
  have none : s.hand.vectors = [] := List.isEmpty_iff.mp (counted.finished flag)
  have placed := accounted.placed
  rw [none, List.flatten_nil, List.append_nil] at placed
  exact ⟨mapped, emitted, placed⟩

theorem invariant_of_reachable
    (reachable : (system n client inputVector outputVec).Reachable s) :
    Invariant client inputVector outputVec s := by
  refine reachable.invariant ?_ fun s event t _ invariant step => ?_
  · rintro s rfl
    exact invariant_init
  · exact invariant.step (next_step step)

/-- **Conservation.** For every number of threads, every input and every
interleaving, every pair is accounted for in every state, and `reduce` is not
called with a null pointer. When all threads have left, each input has been
passed to `map` once, the vectors passed to `reduce` are together the pairs that
these calls emit, and the output has grown by the pairs that the calls of
`reduce` emit. If the client's order is a strict weak order, as sorting requires,
some thread can move until all have left. -/
theorem conservation (client : MapReduceClient Input K2 V2 Output) (inputVector : List Input)
    (outputVec : List Output) (s : Pipeline n K2 V2 Output)
    (reachable : (system n client inputVector outputVec).Reachable s) :
    Accounted client inputVector s ∧ s.hand.Conserved (workload client) outputVec ∧
    none ∉ s.hand.reduced ∧
    ((∀ i, s.HasLeft i) →
      s.mapped = List.range inputVector.length ∧
      ∃ groups : IntermediateVectors K2 V2, s.hand.reduced = groups.map some ∧
        groups.flatten ~ (inputVector.mapIdx client.map).flatten ∧
        s.hand.outputVec ~ outputVec ++ groups.flatMap client.reduce) ∧
    (Lawful client.lt → (∃ i, ¬ s.HasLeft i) →
      ∃ i result, (s.next client inputVector i result).isSome) := by
  have invariant := invariant_of_reachable reachable
  refine ⟨invariant.accounted, invariant.valid.conserved, invariant.valid.counted.called, ?_, ?_⟩
  · intro left
    obtain ⟨mapped, emitted, placed⟩ := invariant.settled left
    obtain ⟨groups, calls, perm, outputs⟩ := invariant.valid.settled fun j => (left j).2
    exact ⟨mapped, groups, calls, perm.flatten.trans (placed.symm.trans emitted), outputs⟩
  · rintro lawful ⟨i, active⟩
    exact invariant.not_stuck lawful active

/-- Groups numbers by parity; the addresses grow with the number of the input. -/
def parityClient : MapReduceClient Nat Nat Nat (Nat × Nat) where
  lt := fun a b => decide (a < b)
  map := fun number x => [⟨⟨number, x % 2⟩, ⟨number, x⟩⟩]
  reduce := fun vec => (vec.take 1).map fun pair => (pair.first.deref, vec.length)

/-- Thread 1 maps both inputs and thread 0 none. -/
def idleMapperEvents : List (Fin 2 × SortResult Nat Nat) :=
  steps 1 7 ++ stepOf 1 { vec := [⟨⟨1, 0⟩, ⟨1, 8⟩⟩, ⟨⟨0, 1⟩, ⟨0, 5⟩⟩] } :: steps 1 1 ++
    steps 0 4 ++ stepOf 0 { vectors := [[⟨⟨1, 0⟩, ⟨1, 8⟩⟩, ⟨⟨0, 1⟩, ⟨0, 5⟩⟩]] } :: steps 0 1 ++
    stepOf 0 { vectors := [[⟨⟨0, 1⟩, ⟨0, 5⟩⟩]] } :: steps 0 18 ++ steps 1 4 ++ steps 0 2

theorem conservation_idleMapper : ∃ s : Pipeline 1 Nat Nat (Nat × Nat),
    exec (scheduled parityClient [5, 8]) (init 1 []) idleMapperEvents = some s ∧
      s.mapped = [0, 1] ∧ ∃ groups : IntermediateVectors Nat Nat,
        s.hand.reduced = groups.map some ∧
        groups.flatten ~ ([5, 8].mapIdx parityClient.map).flatten ∧
        s.hand.outputVec ~ groups.flatMap parityClient.reduce := by
  have result : (exec (scheduled parityClient [5, 8])
      (init 1 [] : Pipeline 1 Nat Nat (Nat × Nat)) idleMapperEvents).map
        (fun s => decide (∀ i, s.HasLeft i)) = some true := by decide +kernel
  obtain ⟨s, run, outcome⟩ := Option.map_eq_some_iff.mp result
  have left : ∀ i, s.HasLeft i := of_decide_eq_true outcome
  have reachable := exec_reachable (.init rfl) run
  exact ⟨s, run, (conservation parityClient [5, 8] [] s reachable).2.2.2.1 left⟩

end Pipeline

end Os2018.MapReduce
