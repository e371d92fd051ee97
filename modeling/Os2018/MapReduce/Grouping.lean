import Os2018.Library.Classes
import Os2018.MapReduce.Conservation

/-!
# One call of reduce for each key

Each round of the shuffle should push all the pairs of the current key. The sweep
stops at the first vector that begins with a larger key, which is right when the
vectors stand in the order of their first keys; but `vectorComp` puts them in the
order of the addresses of their first pairs. A vector that still holds the
current key may then stand behind the one at which the sweep stops. Its pairs are
pushed in a later round, and `reduce` is called twice for one key
(`divided_key_reduced_twice`).

The groups pushed are whole as long as no round divides a key
(`UndividedRound`): a round keeps what was whole before, and a divided key is
never made whole again. So when all threads have left, `reduce` has been called
once for each key exactly if no round of the run divided its key (`grouped_iff`).
-/

set_option autoImplicit false

namespace Os2018.MapReduce

open Transition WeakOrder
open scoped List

universe u v w z

variable {Input : Type w} {K2 : Type u} {V2 : Type v} {Output : Type z}

/-! ## Statement -/

/-- The key and the value of a pair, without their addresses. -/
def IntermediatePair.contents (pair : IntermediatePair K2 V2) : K2 × V2 :=
  (pair.first.deref, pair.second.deref)

namespace Pipeline

variable {n : Nat}

/-- `reduce` has been called once for each class of equal keys, with all the
pairs that `map` emits with a key of the class. -/
def Grouped (client : MapReduceClient Input K2 V2 Output) (inputVector : List Input)
    (s : Pipeline n K2 V2 Output) : Prop :=
  ∃ groups : IntermediateVectors K2 V2, s.hand.reduced = groups.map some ∧
    Classes (intermediatePairComp client.lt) (inputVector.mapIdx client.map).flatten groups

/-- The step is not a round of the shuffle that divides its current key. -/
def UndividedRound (client : MapReduceClient Input K2 V2 Output) (s : Pipeline n K2 V2 Output)
    (event : Fin (n + 1) × SortResult K2 V2) : Prop :=
  s.stage event.1 = .handOff → s.hand.thread event.1 = .shuffle → s.hand.vectors ≠ [] →
    ∀ key ∈ currKey event.2.vectors, Undivided client.lt key event.2.vectors

/-- What the calls of `reduce` received, without addresses and in no order. -/
def groupContents (s : Pipeline n K2 V2 Output) : List (Option (Multiset (K2 × V2))) :=
  s.hand.reduced.map (Option.map fun vec => Multiset.ofList (vec.map IntermediatePair.contents))

end Pipeline

/-! ## A round -/

section Round

variable [DecidableEq K2] [DecidableEq V2] {lt : K2 → K2 → Bool}
  {vectors sorted left : IntermediateVectors K2 V2} {shuffleVec : IntermediateVec K2 V2}

theorem shuffleRound_uniform (lawful : Lawful lt)
    (round : shuffleRound lt vectors sorted = some (shuffleVec, left)) :
    Uniform (intermediatePairComp lt) shuffleVec := by
  obtain ⟨-, key, current, swept⟩ := shuffleRound_eq_some.mp round
  have taken : ∀ pair ∈ (sweep lt key sorted).1, keyEqual2 lt pair.first.deref key = true :=
    sweep_taken sorted
  rw [swept] at taken
  constructor
  · rintro rfl
    rcases sorted with _ | ⟨_ | ⟨pair, rest⟩, vectors⟩
    · cases current
    · cases current
    · obtain rfl := Option.some.inj current
      have first : pair ∈ (sweep lt pair.first.deref ((pair :: rest) :: vectors)).1 :=
        sweep_first lawful
      rw [swept] at first
      cases first
  · intro a member b other
    exact lawful.equivalent_trans (taken a member) (equivalent_comm.trans (taken b other))

/-- What a round pushes shares no key with what it leaves exactly if it does not
divide its key. -/
theorem shuffleRound_separate_iff (lawful : Lawful lt)
    (ordered : ∀ vec ∈ vectors, Sorted (intermediatePairComp lt) vec)
    (round : shuffleRound lt vectors sorted = some (shuffleVec, left)) :
    Separate (intermediatePairComp lt) shuffleVec left.flatten ↔
      ∀ key ∈ currKey sorted, Undivided lt key sorted := by
  have uniform := shuffleRound_uniform lawful round
  obtain ⟨isSort, key, current, swept⟩ := shuffleRound_eq_some.mp round
  have taken : ∀ pair ∈ (sweep lt key sorted).1, keyEqual2 lt pair.first.deref key = true :=
    sweep_taken sorted
  have complete : (∀ vec ∈ (sweep lt key sorted).2, ∀ pair ∈ vec,
      keyEqual2 lt pair.first.deref key = false) ↔ Undivided lt key sorted :=
    sweep_complete_iff lawful fun vec member => ordered vec (isSort.1.mem_iff.mp member)
  rw [swept] at taken complete
  rw [current]
  simp only [Option.mem_def, Option.some.injEq, forall_eq', ← complete]
  constructor
  · intro separate vec member pair inside
    obtain ⟨first, firstMember⟩ := List.exists_mem_of_ne_nil shuffleVec uniform.1
    apply Bool.eq_false_iff.mpr
    intro same
    have both : keyEqual2 lt first.first.deref pair.first.deref = true :=
      lawful.equivalent_trans (taken first firstMember) (equivalent_comm.trans same)
    cases (separate first firstMember pair
      (List.mem_flatten.mpr ⟨vec, member, inside⟩)).symm.trans both
  · intro none first firstMember pair member
    obtain ⟨vec, vecMember, inside⟩ := List.mem_flatten.mp member
    apply Bool.eq_false_iff.mpr
    intro same
    have both : keyEqual2 lt pair.first.deref key = true :=
      lawful.equivalent_trans (equivalent_comm.trans same) (taken first firstMember)
    cases (none vec vecMember pair inside).symm.trans both

end Round

namespace Pipeline

variable {n : Nat}

/-! ## Two runs -/

/-- Two runs that group the same pairs, on any numbers of threads and with the
objects at any addresses, have the same groups. -/
theorem Grouped.groupContents_perm {n' : Nat}
    {client client' : MapReduceClient Input K2 V2 Output} {inputVector inputVector' : List Input}
    {s : Pipeline n K2 V2 Output} {s' : Pipeline n' K2 V2 Output} (lawful : Lawful client.lt)
    (sameOrder : client'.lt = client.lt)
    (samePairs : (inputVector.mapIdx client.map).flatten.map IntermediatePair.contents ~
      (inputVector'.mapIdx client'.map).flatten.map IntermediatePair.contents)
    (grouped : s.Grouped client inputVector) (grouped' : s'.Grouped client' inputVector') :
    s.groupContents ~ s'.groupContents := by
  obtain ⟨groups, calls, classes⟩ := grouped
  obtain ⟨groups', calls', classes'⟩ := grouped'
  rw [sameOrder] at classes'
  have lawfulContents : Lawful fun a b : K2 × V2 => client.lt a.1 b.1 := lawful.comap Prod.fst
  have contents := classes.map (fun a b => client.lt a.1 b.1) IntermediatePair.contents
    fun _ _ => rfl
  have contents' := classes'.map (fun a b => client.lt a.1 b.1) IntermediatePair.contents
    fun _ _ => rfl
  have same := (contents.unique lawfulContents contents' samePairs).map some
  simpa only [groupContents, calls, calls', List.map_map, Function.comp_def, Option.map_some]
    using same

/-! ## Runs -/

variable [DecidableEq K2] [DecidableEq V2] {client : MapReduceClient Input K2 V2 Output}
  {inputVector : List Input} {outputVec : List Output} {s t : Pipeline n K2 V2 Output}
  {i : Fin (n + 1)} {result : SortResult K2 V2}

/-- What a step does to the hand-off. -/
theorem Step.hand_cases (step : Step client inputVector s i result t) :
    (s.stage i).Early ∧ t.hand.pushed = s.hand.pushed ∨
      s.stage i = .woken ∧ t.hand = s.hand ∨
      s.stage i = .handOff ∧ HandOff.Step (workload client) s.hand i result.vectors t.hand := by
  cases step with
  | wake stage => exact .inr (.inl ⟨stage, rfl⟩)
  | handOff stage hand moved => exact .inr (.inr ⟨stage, HandOff.next_step moved⟩)
  | _ =>
      refine .inl ⟨?_, rfl⟩
      rw [‹s.stage i = _›]
      trivial

/-- Every vector pushed holds some pairs, all with one key. -/
structure Shuffled (client : MapReduceClient Input K2 V2 Output) (inputVector : List Input)
    (outputVec : List Output) (s : Pipeline n K2 V2 Output) : Prop where
  invariant : Invariant client inputVector outputVec s
  uniform : ∀ vec ∈ s.hand.pushed, Uniform (intermediatePairComp client.lt) vec

theorem shuffled_init : Shuffled client inputVector outputVec (init n outputVec) :=
  ⟨invariant_init, fun _ member => absurd member List.not_mem_nil⟩

theorem Shuffled.step (shuffled : Shuffled client inputVector outputVec s)
    (lawful : Lawful client.lt) (step : Step client inputVector s i result t) :
    Shuffled client inputVector outputVec t := by
  refine ⟨shuffled.invariant.step step, ?_⟩
  rcases step.hand_cases with ⟨-, pushed⟩ | ⟨-, hand⟩ | ⟨-, moved⟩
  · rw [pushed]
    exact shuffled.uniform
  · rw [hand]
    exact shuffled.uniform
  · refine moved.supply (R := fun pushed _ =>
      ∀ vec ∈ pushed, Uniform (intermediatePairComp client.lt) vec) (fun _ _ kept => kept) ?_
        shuffled.uniform
    intro pushed vectors sorted shuffleVec left kept round
    exact List.forall_mem_append.mpr
      ⟨kept, List.forall_mem_singleton.mpr (shuffleRound_uniform lawful round)⟩

/-- No two of the vectors pushed share a key, nor one of them and those left. -/
def Whole (client : MapReduceClient Input K2 V2 Output) (s : Pipeline n K2 V2 Output) : Prop :=
  (s.hand.pushed ++ [s.hand.vectors.flatten]).Pairwise (Separate (intermediatePairComp client.lt))

omit [DecidableEq K2] [DecidableEq V2] in
theorem whole_of_pushed_nil (none : s.hand.pushed = []) : s.Whole client := by
  rw [Whole, none]
  exact List.pairwise_singleton _ _

/-- **A step keeps the groups whole exactly if it does not divide a key, and does
not mend a divided one.** -/
theorem Shuffled.whole_step (shuffled : Shuffled client inputVector outputVec s)
    (lawful : Lawful client.lt) (step : Step client inputVector s i result t) :
    t.Whole client ↔ s.Whole client ∧ UndividedRound client s (i, result) := by
  rcases step.hand_cases with ⟨stage, pushed⟩ | ⟨stage, hand⟩ | ⟨stage, moved⟩
  · have early := shuffled.invariant.early stage
    have none : s.hand.pushed = [] := by
      rw [early.hand]
      rfl
    refine iff_of_true (whole_of_pushed_nil (pushed.trans none)) ⟨whole_of_pushed_nil none, ?_⟩
    intro handOff
    rw [show s.stage i = .handOff from handOff] at stage
    exact stage.elim
  · rw [Whole, hand]
    refine (and_iff_left fun handOff => ?_).symm
    cases stage.symm.trans handOff
  · have late := shuffled.invariant.late (i := i) (by rw [stage]; exact id)
    rcases moved.source_cases with ⟨point, erased, -, pushed⟩ |
      ⟨point, notEmpty, shuffleVec, left, round, rfl, -, pushed⟩ |
      ⟨-, finished, unchanged, -, pushed⟩
    · have same : ((workload client).eraseEmpty s.hand.vectors).flatten = s.hand.vectors.flatten :=
        eraseEmpty_flatten s.hand.vectors
      rw [Whole, pushed, erased, same]
      refine (and_iff_left fun _ shuffle => ?_).symm
      cases point.symm.trans shuffle
    · rw [Whole, pushed, pairwise_separate_split (shuffleRound_perm round),
        shuffleRound_separate_iff lawful late.ordered round]
      refine and_congr_right fun _ => ⟨fun undivided _ _ _ => undivided, fun undivided => ?_⟩
      apply undivided stage point
      intro none
      cases none ▸ notEmpty
    · rw [Whole, pushed, unchanged]
      refine (and_iff_left fun _ shuffle some => ?_).symm
      exact absurd (List.isEmpty_iff.mp (finished shuffle)) some

/-- When all threads have left, the groups pushed are the classes exactly if they
are whole. -/
theorem Shuffled.grouped_iff_whole (shuffled : Shuffled client inputVector outputVec s)
    (lawful : Lawful client.lt) (left : ∀ i, s.HasLeft i) :
    s.Grouped client inputVector ↔ s.Whole client := by
  have valid := shuffled.invariant.valid
  obtain ⟨-, emitted, placed⟩ := shuffled.invariant.settled left
  obtain ⟨groups, calls, perm, -⟩ := valid.settled fun j => (left j).2
  have flatten : groups.flatten ~ (inputVector.mapIdx client.map).flatten :=
    perm.flatten.trans (placed.symm.trans emitted)
  have uniform : ∀ group ∈ groups, Uniform (intermediatePairComp client.lt) group :=
    fun group member => shuffled.uniform group (perm.mem_iff.mp member)
  obtain ⟨flag, -⟩ := valid.counted.sawEnd 0 (by rw [(left 0).2]; trivial)
  have none : s.hand.vectors = [] := List.isEmpty_iff.mp (valid.counted.finished flag)
  calc s.Grouped client inputVector
    _ ↔ Classes (intermediatePairComp client.lt) (inputVector.mapIdx client.map).flatten
          groups := by
        constructor
        · rintro ⟨groups', calls', classes⟩
          rwa [List.map_injective_iff.mpr (Option.some_injective _) (calls.symm.trans calls')]
        · exact fun classes => ⟨groups, calls, classes⟩
    _ ↔ groups.Pairwise (Separate (intermediatePairComp client.lt)) := by
        rw [classes_iff (intermediatePairComp_lawful lawful)]
        exact ⟨fun parts => parts.2.2, fun once => ⟨flatten, uniform, once⟩⟩
    _ ↔ s.hand.pushed.Pairwise (Separate (intermediatePairComp client.lt)) :=
        perm.pairwise_iff fun separate => separate.symm
    _ ↔ s.Whole client := by
        rw [Whole, none, List.pairwise_append]
        simp [Separate]

/-- **One call of `reduce` for each key.** For every number of threads, every
input, every client whose order is a strict weak order, all addresses and every
interleaving: when all threads have left, `reduce` has been called once for each
class of equal keys with all its pairs exactly if no round divided its current
key. Any two runs for which this holds have the same groups, and some thread can
move until all have left. -/
theorem grouped_iff (client : MapReduceClient Input K2 V2 Output) (lawful : Lawful client.lt)
    (inputVector : List Input) (outputVec : List Output)
    (events : List (Fin (n + 1) × SortResult K2 V2)) (s : Pipeline n K2 V2 Output)
    (run : exec (scheduled client inputVector) (init n outputVec) events = some s) :
    ((∀ i, s.HasLeft i) →
      (s.Grouped client inputVector ↔
        StepsMeet (scheduled client inputVector) (UndividedRound client) (init n outputVec)
          events)) ∧
    (s.Grouped client inputVector →
      ∀ (n' : Nat) (client' : MapReduceClient Input K2 V2 Output) (s' : Pipeline n' K2 V2 Output),
        client'.lt = client.lt →
        (inputVector.mapIdx client.map).flatten.map IntermediatePair.contents ~
          (inputVector.mapIdx client'.map).flatten.map IntermediatePair.contents →
        s'.Grouped client' inputVector → s.groupContents ~ s'.groupContents) ∧
    ((∃ i, ¬ s.HasLeft i) → ∃ i result, (s.next client inputVector i result).isSome) := by
  have shuffled : Shuffled client inputVector outputVec s :=
    exec_invariant (C := fun _ _ => True)
      (fun s event t shuffled _ step => shuffled.step lawful (next_step step)) run
      (stepsMeet_of_forall (fun _ _ _ => trivial) _) shuffled_init
  refine ⟨fun left => ?_, ?_, ?_⟩
  · rw [shuffled.grouped_iff_whole lawful left]
    refine (exec_iff_stepsMeet (P := Shuffled client inputVector outputVec) ?_ ?_ shuffled_init
      run).trans (and_iff_right (whole_of_pushed_nil rfl))
    · exact fun s event t shuffled step => shuffled.step lawful (next_step step)
    · exact fun s event t shuffled step => shuffled.whole_step lawful (next_step step)
  · exact fun grouped n' client' s' sameOrder samePairs grouped' =>
      grouped.groupContents_perm lawful sameOrder samePairs grouped'
  · rintro ⟨i, active⟩
    exact shuffled.invariant.not_stuck lawful active

instance (lt : K2 → K2 → Bool) (key : K2) (vectors : IntermediateVectors K2 V2) :
    Decidable (Undivided lt key vectors) :=
  inferInstanceAs (Decidable (List.Pairwise _ _))

instance [DecidableEq Output] (s : Pipeline n K2 V2 Output)
    (event : Fin (n + 1) × SortResult K2 V2) : Decidable (UndividedRound client s event) :=
  inferInstanceAs (Decidable (_ → _ → _ → ∀ key ∈ currKey event.2.vectors, _))

/-- Thread `i` of three maps input `i`, and thread 0 shuffles and reduces. Each
round lists the vectors left, as sorted. -/
def threeMappersEvents (inputVector : List Nat) (rounds : List (List Nat)) :
    List (Fin 3 × SortResult Nat Nat) :=
  steps 0 3 ++ steps 1 3 ++ steps 2 3 ++
    [0, 1, 2].flatMap (fun i =>
      steps i 1 ++ stepOf i { vec := mapCall parityClient inputVector i } :: steps i 1) ++
    steps 0 2 ++
    rounds.flatMap (fun numbers =>
      stepOf 0 { vectors := numbers.map (mapCall parityClient inputVector) } :: steps 0 1) ++
    steps 0 (8 + 6 * rounds.length) ++ steps 1 4 ++ steps 2 3

theorem parityClient_lawful : Lawful parityClient.lt where
  irrefl := by simp [parityClient]
  trans := by
    simp only [parityClient, decide_eq_true_eq]
    omega
  incomp_trans := by
    simp only [parityClient, decide_eq_true_eq]
    omega

theorem grouped_iff_threeMappers : ∃ s : Pipeline 2 Nat Nat (Nat × Nat),
    exec (scheduled parityClient [2, 4, 1]) (init 2 [])
      (threeMappersEvents [2, 4, 1] [[0, 1, 2], [2]]) = some s ∧
      s.hand.outputVec = [(1, 1), (0, 2)] ∧ s.Grouped parityClient [2, 4, 1] := by
  have result : (exec (guarded (scheduled parityClient [2, 4, 1]) (UndividedRound parityClient))
      (init 2 [] : Pipeline 2 Nat Nat (Nat × Nat))
      (threeMappersEvents [2, 4, 1] [[0, 1, 2], [2]])).map
        (fun s => (decide (∀ i, s.HasLeft i), s.hand.outputVec)) =
          some (true, [(1, 1), (0, 2)]) := by decide +kernel
  obtain ⟨s, guardedRun, outcome⟩ := Option.map_eq_some_iff.mp result
  obtain ⟨left, outputVec⟩ := Prod.mk.inj outcome
  obtain ⟨run, undivided⟩ := exec_guarded guardedRun
  have grouped := (grouped_iff parityClient parityClient_lawful [2, 4, 1] [] _ s run).1
  exact ⟨s, run, outputVec, (grouped (of_decide_eq_true left)).mpr undivided⟩

/-- **A key reduced twice.** The inputs 2, 1 and 4 are mapped by three threads,
and the pairs are allocated in this order. The first round stops at the second
vector, which begins with the larger key 1, and leaves the third, whose key is
the current key 0. -/
theorem divided_key_reduced_twice : Lawful parityClient.lt ∧
    ∃ s : Pipeline 2 Nat Nat (Nat × Nat),
      exec (scheduled parityClient [2, 1, 4]) (init 2 [])
        (threeMappersEvents [2, 1, 4] [[0, 1, 2], [1, 2], [2]]) = some s ∧
      (∀ i, s.HasLeft i) ∧ ¬ s.Grouped parityClient [2, 1, 4] := by
  refine ⟨parityClient_lawful, ?_⟩
  have result : (exec (scheduled parityClient [2, 1, 4])
      (init 2 [] : Pipeline 2 Nat Nat (Nat × Nat))
      (threeMappersEvents [2, 1, 4] [[0, 1, 2], [1, 2], [2]])).map
        (fun s => (decide (∀ i, s.HasLeft i), s.hand.reduced)) =
          some (true, ([2, 1, 0].map (mapCall parityClient [2, 1, 4])).map some) := by
    decide +kernel
  obtain ⟨s, run, outcome⟩ := Option.map_eq_some_iff.mp result
  obtain ⟨left, reduced⟩ := Prod.mk.inj outcome
  refine ⟨s, run, of_decide_eq_true left, ?_⟩
  rintro ⟨groups, calls, classes⟩
  have same : groups = [2, 1, 0].map (mapCall parityClient [2, 1, 4]) :=
    List.map_injective_iff.mpr (Option.some_injective _) (calls.symm.trans reduced)
  have once := classes.once
  rw [same] at once
  have apart := (List.pairwise_cons.mp once).1 (mapCall parityClient [2, 1, 4] 0) (by simp)
  have clash := apart ⟨⟨2, 0⟩, ⟨2, 4⟩⟩ (by decide) ⟨⟨0, 0⟩, ⟨0, 2⟩⟩ (by decide)
  exact absurd clash (by decide)

end Pipeline

end Os2018.MapReduce
