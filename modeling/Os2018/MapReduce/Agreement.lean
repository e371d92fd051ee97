import Os2018.MapReduce.Grouping

/-!
# Runs that agree

The order of the addresses does no harm in two cases. With at most two threads a
round has at most two vectors, and the first of them begins with the current key
itself. And when smaller keys stand at smaller addresses, `vectorComp` puts the
vectors in the order of their first keys, for which the sweep is written. Then no
round divides its key, and every complete run groups the pairs.

The output of such a run is, up to order, that of the framework without threads:
all inputs mapped one after another, the pairs grouped by key, and each group
reduced (`matches_sequential`). So it does not depend on the number of threads,
on how they are scheduled, or on where the objects are allocated (`runs_agree`).
-/

set_option autoImplicit false

namespace Os2018.MapReduce

open Transition WeakOrder
open scoped List

universe u v w z

variable {Input : Type w} {K2 : Type u} {V2 : Type v} {Output : Type z}

/-! ## Statement -/

/-- What all calls of `map` emit. -/
def allPairs (client : MapReduceClient Input K2 V2 Output) (inputVector : List Input) :
    IntermediateVec K2 V2 :=
  (inputVector.mapIdx client.map).flatten

/-- The framework without threads. -/
def sequential (client : MapReduceClient Input K2 V2 Output) (inputVector : List Input)
    (outputVec : List Output) : List Output :=
  outputVec ++
    (classesOf (intermediatePairComp client.lt) (allPairs client inputVector)).flatMap client.reduce

/-- Smaller keys stand at smaller addresses. -/
def AddressesFollowKeys (client : MapReduceClient Input K2 V2 Output)
    (inputVector : List Input) : Prop :=
  ∀ a ∈ allPairs client inputVector, ∀ b ∈ allPairs client inputVector,
    client.lt a.first.deref b.first.deref = true → a.first.addr < b.first.addr

instance (client : MapReduceClient Input K2 V2 Output) (inputVector : List Input) :
    Decidable (AddressesFollowKeys client inputVector) :=
  inferInstanceAs (Decidable (∀ a ∈ allPairs client inputVector, _))

/-- What `reduce` emits for the pairs of a key does not depend on their order. -/
def OrderBlind (client : MapReduceClient Input K2 V2 Output) : Prop :=
  ∀ vec vec', Uniform (intermediatePairComp client.lt) vec → vec ~ vec' →
    client.reduce vec ~ client.reduce vec'

/-- What two clients' `reduce` emit for the pairs of a key depends on their
contents only. -/
def ContentsOnly (client client' : MapReduceClient Input K2 V2 Output) : Prop :=
  ∀ vec vec', Uniform (intermediatePairComp client.lt) vec →
    vec.map IntermediatePair.contents ~ vec'.map IntermediatePair.contents →
      client.reduce vec ~ client'.reduce vec'

/-! ## Rounds that divide no key -/

section Round

variable {lt : K2 → K2 → Bool} {vectors sorted left : IntermediateVectors K2 V2}
  {shuffleVec : IntermediateVec K2 V2} {key : K2}

theorem sweep_length_le (vectors : IntermediateVectors K2 V2) :
    (sweep lt key vectors).2.length ≤ vectors.length := by
  induction vectors with
  | nil => exact le_rfl
  | cons vec vectors ih =>
      rw [sweep]
      split
      · exact le_rfl
      · dsimp only
        split
        · exact ih.trans (Nat.le_succ _)
        · exact Nat.succ_le_succ ih

theorem shuffleRound_length_le [DecidableEq K2] [DecidableEq V2]
    (round : shuffleRound lt vectors sorted = some (shuffleVec, left)) :
    left.length ≤ vectors.length := by
  obtain ⟨isSort, key, -, swept⟩ := shuffleRound_eq_some.mp round
  have fewer : (sweep lt key sorted).2.length ≤ sorted.length := sweep_length_le sorted
  rw [swept] at fewer
  exact fewer.trans isSort.1.length_eq.le

variable (lawful : Lawful lt)
include lawful

theorem undivided_of_few (isSort : IsSort vectorComp vectors sorted) (few : vectors.length ≤ 2)
    (current : key ∈ currKey sorted) : Undivided lt key sorted := by
  rw [← isSort.1.length_eq] at few
  rcases sorted with _ | ⟨_ | ⟨pair, rest⟩, sorted⟩
  · cases current
  · cases current
  · obtain rfl := Option.some.inj current
    exact undivided_of_two lawful (Nat.le_of_succ_le_succ few)

theorem undivided_of_addresses (isSort : IsSort vectorComp vectors sorted)
    (ordered : ∀ vec ∈ vectors, Sorted (intermediatePairComp lt) vec)
    (follow : ∀ a ∈ vectors.flatten, ∀ b ∈ vectors.flatten,
      lt a.first.deref b.first.deref = true → a.first.addr < b.first.addr) :
    Undivided lt key sorted := by
  refine undivided_of_ordered lawful
    (fun vec member => ordered vec (isSort.1.mem_iff.mp member)) ?_
  refine isSort.2.imp_of_mem fun {vec later} inVec inLater inOrder first isFirst next isNext => ?_
  have inside : ∀ vec ∈ sorted, ∀ pair ∈ vec.head?, pair ∈ vectors.flatten :=
    fun vec member pair isHead => List.mem_flatten.mpr
      ⟨vec, isSort.1.mem_iff.mp member, List.mem_of_mem_head? isHead⟩
  by_contra before
  rw [Bool.not_eq_false] at before
  have less := follow next (inside later inLater next isNext) first
    (inside vec inVec first isFirst) before
  rcases vec with _ | ⟨_, _⟩ <;> rcases later with _ | ⟨_, _⟩ <;> cases isFirst <;> cases isNext
  simp [vectorComp, frontPointers, pairLess, less] at inOrder

end Round

namespace Pipeline

variable {n : Nat} [DecidableEq K2] [DecidableEq V2] {client : MapReduceClient Input K2 V2 Output}
  {inputVector : List Input} {outputVec : List Output} {s t : Pipeline n K2 V2 Output}
  {i : Fin (n + 1)} {result : SortResult K2 V2}

/-- No step adds a vector. -/
theorem Step.vectors_length_le (step : Step client inputVector s i result t) :
    t.hand.vectors.length ≤ s.hand.vectors.length := by
  cases step with
  | emit pair pairs stage => exact List.length_set.le
  | sort stage isSort => exact List.length_set.le
  | handOff stage hand moved =>
      rcases (HandOff.next_step moved).source_cases with ⟨-, erased, -⟩ |
        ⟨-, -, shuffleVec, left, round, rfl, -⟩ | ⟨-, -, unchanged, -⟩
      · rw [erased]
        exact List.length_filter_le ..
      · exact shuffleRound_length_le round
      · exact unchanged ▸ le_rfl
  | _ => exact le_rfl

omit [DecidableEq K2] [DecidableEq V2] in
/-- The pairs in the vectors come from `map`. -/
theorem Accounted.mem_allPairs (accounted : Accounted client inputVector s)
    {pair : IntermediatePair K2 V2} (member : pair ∈ s.hand.vectors.flatten) :
    pair ∈ allPairs client inputVector := by
  have isEmitted : pair ∈ s.emitted :=
    accounted.placed.mem_iff.mpr (List.mem_append_right _ member)
  have fromMap : pair ∈ (s.mapped.flatMap (mapCall client inputVector) : Multiset _) := by
    rw [← accounted.emitted]
    exact Multiset.mem_add.mpr (.inl isEmitted)
  obtain ⟨number, -, called⟩ := List.mem_flatMap.mp (Multiset.mem_coe.mp fromMap)
  rw [allPairs, ← flatMap_mapCall]
  refine List.mem_flatMap.mpr ⟨number, List.mem_range.mpr ?_, called⟩
  by_contra outside
  rw [mapCall, List.getElem?_eq_none_iff.mpr (Nat.le_of_not_lt outside)] at called
  cases called

/-- A step of the framework divides no key if no way to sort the vectors lets the
round divide it. -/
theorem Step.undividedRound (step : Step client inputVector s i result t)
    (undivided : ∀ sorted, IsSort vectorComp s.hand.vectors sorted → ∀ key ∈ currKey sorted,
      Undivided client.lt key sorted) : UndividedRound client s (i, result) := by
  intro stage point some
  have moved : HandOff.Step (workload client) s.hand i result.vectors t.hand := by
    rcases step.hand_cases with ⟨isEarly, -⟩ | ⟨woken, -⟩ | ⟨-, moved⟩
    · rw [show s.stage i = .handOff from stage] at isEarly
      exact isEarly.elim
    · cases woken.symm.trans stage
    · exact moved
  rcases moved.source_cases with ⟨erase, -⟩ | ⟨-, -, shuffleVec, left, round, -⟩ |
    ⟨-, finished, -⟩
  · cases erase.symm.trans point
  · obtain ⟨isSort, -⟩ := shuffleRound_eq_some.mp round
    exact undivided _ isSort
  · exact absurd (List.isEmpty_iff.mp (finished point)) some

/-! ## Runs -/

/-- What holds along a run when there are few threads or the addresses are in
order. -/
structure Grouping (client : MapReduceClient Input K2 V2 Output) (inputVector : List Input)
    (outputVec : List Output) (s : Pipeline n K2 V2 Output) : Prop where
  shuffled : Shuffled client inputVector outputVec s
  whole : s.Whole client
  few : s.hand.vectors.length ≤ n + 1

theorem grouping_init : Grouping client inputVector outputVec (init n outputVec) :=
  ⟨shuffled_init, whole_of_pushed_nil rfl, List.length_replicate.le⟩

theorem Grouping.step (grouping : Grouping client inputVector outputVec s)
    (lawful : Lawful client.lt) (safe : n ≤ 1 ∨ AddressesFollowKeys client inputVector)
    (step : Step client inputVector s i result t) :
    Grouping client inputVector outputVec t := by
  refine ⟨grouping.shuffled.step lawful step, ?_, step.vectors_length_le.trans grouping.few⟩
  refine (grouping.shuffled.whole_step lawful step).mpr ⟨grouping.whole, ?_⟩
  rcases safe with two | follow
  · exact step.undividedRound fun sorted isSort key current =>
      undivided_of_few lawful isSort (grouping.few.trans (Nat.succ_le_succ two)) current
  · -- The vectors are sorted once the hand-off has begun; no round comes before.
    intro stage
    have late := grouping.shuffled.invariant.late (i := i) (by
      rw [show s.stage i = .handOff from stage]
      exact id)
    refine step.undividedRound (fun sorted isSort key _ => ?_) stage
    exact undivided_of_addresses lawful isSort late.ordered fun a inside b inside' =>
      follow a (grouping.shuffled.invariant.accounted.mem_allPairs inside) b
        (grouping.shuffled.invariant.accounted.mem_allPairs inside')

theorem grouping_of_reachable (lawful : Lawful client.lt)
    (safe : n ≤ 1 ∨ AddressesFollowKeys client inputVector)
    (reachable : (system n client inputVector outputVec).Reachable s) :
    Grouping client inputVector outputVec s := by
  refine reachable.invariant ?_ fun s event t _ grouping step => ?_
  · rintro s rfl
    exact grouping_init
  · exact grouping.step lawful safe (next_step step)

/-- When all threads have left, the groups reduced are the classes, and the
output holds what `reduce` emits for them. -/
theorem Grouping.reduced (grouping : Grouping client inputVector outputVec s)
    (lawful : Lawful client.lt) (left : ∀ j, s.HasLeft j) :
    ∃ groups : IntermediateVectors K2 V2, s.hand.reduced = groups.map some ∧
      Classes (intermediatePairComp client.lt) (allPairs client inputVector) groups ∧
      s.hand.outputVec ~ outputVec ++ groups.flatMap client.reduce := by
  obtain ⟨groups, calls, classes⟩ :=
    (grouping.shuffled.grouped_iff_whole lawful left).mpr grouping.whole
  obtain ⟨groups', calls', -, outputs⟩ :=
    grouping.shuffled.invariant.valid.settled fun j => (left j).2
  obtain rfl : groups = groups' :=
    List.map_injective_iff.mpr (Option.some_injective _) (calls.symm.trans calls')
  exact ⟨groups, calls, classes, outputs⟩

/-- **The framework computes what it would without threads.** With at most two
threads, or with addresses in the order of the keys, for every input, every client
whose order is a strict weak order and whose `reduce` does not look at the order
of its pairs, and every interleaving: when all threads have left, the output is
up to order the sequential one. -/
theorem matches_sequential (client : MapReduceClient Input K2 V2 Output)
    (lawful : Lawful client.lt) (blind : OrderBlind client) (inputVector : List Input)
    (outputVec : List Output) (safe : n ≤ 1 ∨ AddressesFollowKeys client inputVector)
    (s : Pipeline n K2 V2 Output)
    (reachable : (system n client inputVector outputVec).Reachable s)
    (left : ∀ j, s.HasLeft j) :
    s.hand.outputVec ~ sequential client inputVector outputVec := by
  have lawfulPairs : Lawful
      (intermediatePairComp client.lt : IntermediatePair K2 V2 → IntermediatePair K2 V2 → Bool) :=
    intermediatePairComp_lawful lawful
  obtain ⟨groups, -, classes, outputs⟩ :=
    (grouping_of_reachable lawful safe reachable).reduced lawful left
  have same := classes.unique lawfulPairs (classesOf_classes lawfulPairs _) (.refl _)
  refine outputs.trans ((flatMap_perm_of_map_perm same ?_).append_left _)
  intro group member group' _ sameGroup
  exact blind group group' (classes.uniform lawfulPairs group member)
    (Multiset.coe_eq_coe.mp sameGroup)

omit [DecidableEq K2] [DecidableEq V2] in
theorem orderBlind_of_contentsOnly (contentsOnly : ContentsOnly client client) :
    OrderBlind client :=
  fun vec vec' uniform perm => contentsOnly vec vec' uniform (perm.map _)

theorem contentsOnly_parity {client : MapReduceClient Nat Nat Nat (Nat × Nat)}
    (sameReduce : client.reduce = parityClient.reduce) : ContentsOnly parityClient client := by
  intro vec vec' uniform perm
  have lengths : vec.length = vec'.length := by simpa using perm.length_eq
  rcases vec with _ | ⟨a, rest⟩
  · exact absurd rfl uniform.1
  rcases vec' with _ | ⟨b, rest'⟩
  · cases lengths
  obtain ⟨c, member, same⟩ := List.mem_map.mp (perm.mem_iff.mpr List.mem_cons_self)
  have both := equivalent_iff.mp (uniform.2 a List.mem_cons_self c member)
  simp only [intermediatePairComp, parityClient, decide_eq_false_iff_not] at both
  have key : a.first.deref = b.first.deref := by
    have sameKey : c.first.deref = b.first.deref := congrArg Prod.fst same
    omega
  rw [sameReduce]
  exact .of_eq (by simpa [parityClient, key] using lengths)

/-- Two threads, of which one maps all inputs. -/
theorem matches_sequential_idleMapper : ∃ s : Pipeline 1 Nat Nat (Nat × Nat),
    exec (scheduled parityClient [5, 8]) (init 1 []) idleMapperEvents = some s ∧
      s.hand.outputVec ~ [(1, 1), (0, 1)] := by
  have result : (exec (scheduled parityClient [5, 8])
      (init 1 [] : Pipeline 1 Nat Nat (Nat × Nat)) idleMapperEvents).map
        (fun s => decide (∀ i, s.HasLeft i)) = some true := by decide +kernel
  obtain ⟨s, run, outcome⟩ := Option.map_eq_some_iff.mp result
  exact ⟨s, run, matches_sequential parityClient parityClient_lawful
    (orderBlind_of_contentsOnly (contentsOnly_parity rfl)) [5, 8] [] (.inl le_rfl) s
    (exec_reachable (.init rfl) run) (of_decide_eq_true outcome)⟩

/-- **Runs agree.** Take two complete runs over clients that differ at most in
where they allocate, each with at most two threads or with addresses in the order
of the keys. Whatever the numbers of threads, the schedules and the addresses,
the outputs are the same up to order. -/
theorem runs_agree {n' : Nat} (client client' : MapReduceClient Input K2 V2 Output)
    (lawful : Lawful client.lt) (sameOrder : client'.lt = client.lt)
    (contentsOnly : ContentsOnly client client') (inputVector : List Input)
    (samePairs : (allPairs client inputVector).map IntermediatePair.contents ~
      (allPairs client' inputVector).map IntermediatePair.contents)
    (outputVec : List Output) (safe : n ≤ 1 ∨ AddressesFollowKeys client inputVector)
    (safe' : n' ≤ 1 ∨ AddressesFollowKeys client' inputVector)
    (s : Pipeline n K2 V2 Output) (s' : Pipeline n' K2 V2 Output)
    (reachable : (system n client inputVector outputVec).Reachable s)
    (reachable' : (system n' client' inputVector outputVec).Reachable s')
    (left : ∀ j, s.HasLeft j) (left' : ∀ j, s'.HasLeft j) :
    s.hand.outputVec ~ s'.hand.outputVec := by
  have lawfulPairs : Lawful
      (intermediatePairComp client.lt : IntermediatePair K2 V2 → IntermediatePair K2 V2 → Bool) :=
    intermediatePairComp_lawful lawful
  have lawful' : Lawful client'.lt := sameOrder ▸ lawful
  obtain ⟨groups, calls, classes, outputs⟩ :=
    (grouping_of_reachable lawful safe reachable).reduced lawful left
  obtain ⟨groups', calls', classes', outputs'⟩ :=
    (grouping_of_reachable lawful' safe' reachable').reduced lawful' left'
  have same : s.groupContents ~ s'.groupContents :=
    Grouped.groupContents_perm lawful sameOrder samePairs ⟨groups, calls, classes⟩
      ⟨groups', calls', classes'⟩
  simp only [groupContents, calls, calls', List.map_map, Function.comp_def, Option.map_some] at same
  refine outputs.trans (((flatMap_perm_of_map_perm same ?_).append_left _).trans outputs'.symm)
  intro group member group' _ sameGroup
  exact contentsOnly group group' (classes.uniform lawfulPairs group member)
    (Multiset.coe_eq_coe.mp (Option.some.inj sameGroup))

/-- As `parityClient`, but later inputs get lower addresses. -/
def descendingClient : MapReduceClient Nat Nat Nat (Nat × Nat) :=
  { parityClient with map := fun number x => [⟨⟨9 - number, x % 2⟩, ⟨9 - number, x⟩⟩] }

/-- One thread does everything. -/
def singleThreadEvents : List (Fin 1 × SortResult Nat Nat) :=
  steps 0 10 ++
    stepOf 0 { vec := [⟨⟨9, 0⟩, ⟨9, 2⟩⟩, ⟨⟨8, 0⟩, ⟨8, 4⟩⟩, ⟨⟨7, 1⟩, ⟨7, 1⟩⟩] } :: steps 0 2 ++
    stepOf 0 { vectors := [[⟨⟨9, 0⟩, ⟨9, 2⟩⟩, ⟨⟨8, 0⟩, ⟨8, 4⟩⟩, ⟨⟨7, 1⟩, ⟨7, 1⟩⟩]] } :: steps 0 1 ++
    stepOf 0 { vectors := [[⟨⟨7, 1⟩, ⟨7, 1⟩⟩]] } :: steps 0 19

/-- Three threads with ascending addresses, and one thread with descending
ones. -/
theorem runs_agree_threeMappers : ∃ (s : Pipeline 2 Nat Nat (Nat × Nat))
    (s' : Pipeline 0 Nat Nat (Nat × Nat)),
    exec (scheduled parityClient [2, 4, 1]) (init 2 [])
      (threeMappersEvents [2, 4, 1] [[0, 1, 2], [2]]) = some s ∧
    exec (scheduled descendingClient [2, 4, 1]) (init 0 []) singleThreadEvents = some s' ∧
    s.hand.outputVec ~ s'.hand.outputVec := by
  have result : (exec (scheduled parityClient [2, 4, 1])
      (init 2 [] : Pipeline 2 Nat Nat (Nat × Nat))
      (threeMappersEvents [2, 4, 1] [[0, 1, 2], [2]])).map
        (fun s => decide (∀ i, s.HasLeft i)) = some true := by decide +kernel
  have result' : (exec (scheduled descendingClient [2, 4, 1])
      (init 0 [] : Pipeline 0 Nat Nat (Nat × Nat)) singleThreadEvents).map
        (fun s => decide (∀ i, s.HasLeft i)) = some true := by decide +kernel
  obtain ⟨s, run, outcome⟩ := Option.map_eq_some_iff.mp result
  obtain ⟨s', run', outcome'⟩ := Option.map_eq_some_iff.mp result'
  have follow : AddressesFollowKeys parityClient [2, 4, 1] := by decide
  exact ⟨s, s', run, run', runs_agree parityClient descendingClient parityClient_lawful rfl
    (contentsOnly_parity rfl) [2, 4, 1] (by decide) [] (.inr follow) (.inl (Nat.zero_le 1)) s s'
    (exec_reachable (.init rfl) run) (exec_reachable (.init rfl) run')
    (of_decide_eq_true outcome) (of_decide_eq_true outcome')⟩

end Pipeline

end Os2018.MapReduce
