import Os2018.Library.WeakOrder
import Mathlib.Data.Prod.Lex

/-!
# One round of the shuffle

`shufflePhase` groups the pairs of all threads by key. In each round it sorts the
vectors with `vectorComp`, takes the key of the very first pair as the current
one, and sweeps the vectors: it moves the pairs with the current key to a new
vector, and stops at the first vector that begins with a larger key.

The vectors are sorted with `vectorComp`, and that compares the first pairs
themselves: pairs of pointers, by address. `intermediatePairComp`, with which
each thread sorted its own vector, compares the keys behind the pointers. The
sweep takes every pair of the current key exactly if no vector that begins with a
larger key stands before one that still holds such a pair
(`sweep_complete_iff`).
-/

set_option autoImplicit false

namespace Os2018.MapReduce

open WeakOrder
open scoped List

universe u v w z

/-! ## Data -/

/-- A pointer: an address, which is what `<` on pointers compares, and the object
behind it. -/
structure Ptr (α : Type u) where
  addr : Nat
  deref : α
deriving DecidableEq, Repr

structure IntermediatePair (K2 : Type u) (V2 : Type v) where
  first : Ptr K2
  second : Ptr V2
deriving DecidableEq, Repr

abbrev IntermediateVec (K2 : Type u) (V2 : Type v) := List (IntermediatePair K2 V2)

abbrev IntermediateVectors (K2 : Type u) (V2 : Type v) := List (IntermediateVec K2 V2)

/-- The client: `K2::operator<`, and what `map` and `reduce` emit. `map` is told
the number of its input besides the input itself, since the pairs it emits may
hold fresh pointers. -/
structure MapReduceClient (Input : Type w) (K2 : Type u) (V2 : Type v) (Output : Type z) where
  lt : K2 → K2 → Bool
  map : Nat → Input → List (IntermediatePair K2 V2)
  reduce : IntermediateVec K2 V2 → List Output

variable {K2 : Type u} {V2 : Type v}

/-! ## Comparisons -/

/-- `std::pair`'s `<`, on addresses. -/
def pairLess (lhs rhs : Nat × Nat) : Bool :=
  decide (lhs.1 < rhs.1) || !decide (rhs.1 < lhs.1) && decide (lhs.2 < rhs.2)

/-- The pointers of `vec[0]`. An empty vector has none and is not compared. -/
def frontPointers : IntermediateVec K2 V2 → Nat × Nat
  | [] => (0, 0)
  | pair :: _ => (pair.first.addr, pair.second.addr)

def vectorComp (lhs rhs : IntermediateVec K2 V2) : Bool :=
  pairLess (frontPointers lhs) (frontPointers rhs)

def intermediatePairComp (lt : K2 → K2 → Bool) (lhs rhs : IntermediatePair K2 V2) : Bool :=
  lt lhs.first.deref rhs.first.deref

def keyEqual2 (lt : K2 → K2 → Bool) (a b : K2) : Bool :=
  !lt a b && !lt b a

theorem vectorComp_lawful :
    Lawful (vectorComp : IntermediateVec K2 V2 → IntermediateVec K2 V2 → Bool) := by
  have addresses : Lawful pairLess := by
    refine { irrefl := ?_, trans := ?_, incomp_trans := ?_ }
    all_goals simp only [pairLess, Bool.or_eq_true, Bool.and_eq_true, Bool.not_eq_true',
      decide_eq_true_eq, decide_eq_false_iff_not]
    all_goals omega
  exact addresses.comap frontPointers

theorem intermediatePairComp_lawful {lt : K2 → K2 → Bool} (lawful : Lawful lt) :
    Lawful (intermediatePairComp lt : IntermediatePair K2 V2 → IntermediatePair K2 V2 → Bool) :=
  lawful.comap fun pair : IntermediatePair K2 V2 => pair.first.deref

/-! ## The code -/

/-- The first loop of `shufflePhase`. -/
def eraseEmpty (vectors : IntermediateVectors K2 V2) : IntermediateVectors K2 V2 :=
  vectors.filter fun vec => !vec.isEmpty

/-- The loop over `keyIter`: the pairs it moves, and the vector it leaves. -/
def takeKey (lt : K2 → K2 → Bool) (currKey : K2) :
    Bool → IntermediateVec K2 V2 → IntermediateVec K2 V2 × IntermediateVec K2 V2
  | _, [] => ([], [])
  | visitedKey, pair :: rest =>
      if keyEqual2 lt pair.first.deref currKey then
        let (taken, kept) := takeKey lt currKey true rest
        (pair :: taken, kept)
      else if visitedKey then ([], pair :: rest)
      else
        let (taken, kept) := takeKey lt currKey false rest
        (taken, pair :: kept)

/-- `*currKey < *(*vecIter)[0].first` -/
def startsAfter (lt : K2 → K2 → Bool) (currKey : K2) : IntermediateVec K2 V2 → Bool
  | [] => false
  | pair :: _ => lt currKey pair.first.deref

/-- The loop over `vecIter`: the contents of `shuffleVec`, and the vectors it
leaves. -/
def sweep (lt : K2 → K2 → Bool) (currKey : K2) :
    IntermediateVectors K2 V2 → IntermediateVec K2 V2 × IntermediateVectors K2 V2
  | [] => ([], [])
  | vec :: vectors =>
      if startsAfter lt currKey vec then ([], vec :: vectors)
      else
        let (taken, kept) := takeKey lt currKey false vec
        let (shuffleVec, vectorsLeft) := sweep lt currKey vectors
        (taken ++ shuffleVec, if kept.isEmpty then vectorsLeft else kept :: vectorsLeft)

/-- `((*vectors)[0])[0].first` -/
def currKey : IntermediateVectors K2 V2 → Option K2
  | (pair :: _) :: _ => some pair.first.deref
  | _ => none

/-- One round, up to the push. `sorted` is what `sort` makes of the vectors. -/
def shuffleRound [DecidableEq K2] [DecidableEq V2] (lt : K2 → K2 → Bool)
    (vectors sorted : IntermediateVectors K2 V2) :
    Option (IntermediateVec K2 V2 × IntermediateVectors K2 V2) :=
  if IsSort vectorComp vectors sorted then
    (currKey sorted).map fun key => sweep lt key sorted
  else none

/-! ## What is moved -/

section Moves

theorem eraseEmpty_flatten (vectors : IntermediateVectors K2 V2) :
    (eraseEmpty vectors).flatten = vectors.flatten :=
  List.flatten_filter_not_isEmpty

variable {lt : K2 → K2 → Bool} {key : K2}

theorem takeKey_perm (visitedKey : Bool) (vec : IntermediateVec K2 V2) :
    ((takeKey lt key visitedKey vec).1 ++ (takeKey lt key visitedKey vec).2).Perm vec := by
  induction vec generalizing visitedKey with
  | nil => exact .nil
  | cons pair rest ih =>
      rw [takeKey]
      split
      · exact (ih true).cons pair
      · cases visitedKey with
        | true => exact .refl _
        | false => exact List.perm_middle.trans ((ih false).cons pair)

theorem takeKey_taken (visitedKey : Bool) (vec : IntermediateVec K2 V2) :
    ∀ pair ∈ (takeKey lt key visitedKey vec).1, keyEqual2 lt pair.first.deref key = true := by
  induction vec generalizing visitedKey with
  | nil => simp [takeKey]
  | cons pair rest ih =>
      rw [takeKey]
      split
      · exact List.forall_mem_cons.mpr ⟨‹_›, ih true⟩
      · cases visitedKey with
        | true => simp
        | false => exact ih false

theorem takeKey_kept_sublist (visitedKey : Bool) (vec : IntermediateVec K2 V2) :
    (takeKey lt key visitedKey vec).2.Sublist vec := by
  induction vec generalizing visitedKey with
  | nil => exact .slnil
  | cons pair rest ih =>
      rw [takeKey]
      split
      · exact (ih true).cons pair
      · cases visitedKey with
        | true => exact .refl _
        | false => exact (ih false).cons_cons pair

theorem sweep_perm (vectors : IntermediateVectors K2 V2) :
    ((sweep lt key vectors).1 ++ (sweep lt key vectors).2.flatten).Perm vectors.flatten := by
  induction vectors with
  | nil => exact .nil
  | cons vec vectors ih =>
      rw [sweep]
      split
      · exact .refl _
      · have moved : ((takeKey lt key false vec).1 ++ (takeKey lt key false vec).2).Perm vec :=
          takeKey_perm false vec
        generalize takeKey lt key false vec = split at moved
        obtain ⟨taken, kept⟩ := split
        have left : (if kept.isEmpty then (sweep lt key vectors).2
            else kept :: (sweep lt key vectors).2).flatten =
              kept ++ (sweep lt key vectors).2.flatten := by
          cases kept <;> rfl
        simp only [left, List.flatten_cons]
        calc taken ++ (sweep lt key vectors).1 ++ (kept ++ (sweep lt key vectors).2.flatten)
          _ ~ taken ++ kept ++ ((sweep lt key vectors).1 ++ (sweep lt key vectors).2.flatten) := by
              rw [List.append_assoc, List.append_assoc]
              exact (List.perm_append_left_iff taken).mpr (List.perm_append_comm_assoc ..)
          _ ~ vec ++ vectors.flatten := moved.append ih

theorem sweep_taken (vectors : IntermediateVectors K2 V2) :
    ∀ pair ∈ (sweep lt key vectors).1, keyEqual2 lt pair.first.deref key = true := by
  induction vectors with
  | nil => simp [sweep]
  | cons vec vectors ih =>
      rw [sweep]
      split
      · simp
      · exact List.forall_mem_append.mpr ⟨takeKey_taken false vec, ih⟩

/-- Every vector left is a non-empty part of one there was. -/
theorem sweep_left {vectors : IntermediateVectors K2 V2} (nonempty : ∀ vec ∈ vectors, vec ≠ []) :
    ∀ left ∈ (sweep lt key vectors).2, left ≠ [] ∧ ∃ vec ∈ vectors, left.Sublist vec := by
  induction vectors with
  | nil => simp [sweep]
  | cons vec vectors ih =>
      rw [List.forall_mem_cons] at nonempty
      have later : ∀ left ∈ (sweep lt key vectors).2,
          left ≠ [] ∧ ∃ vec' ∈ vec :: vectors, left.Sublist vec' := by
        intro left member
        obtain ⟨notNil, vec', old, part⟩ := ih nonempty.2 left member
        exact ⟨notNil, vec', List.mem_cons_of_mem _ old, part⟩
      rw [sweep]
      split
      · intro left member
        refine ⟨?_, left, member, .refl _⟩
        rcases List.mem_cons.mp member with rfl | old
        · exact nonempty.1
        · exact nonempty.2 left old
      · have part : (takeKey lt key false vec).2.Sublist vec := takeKey_kept_sublist false vec
        generalize takeKey lt key false vec = split at part
        obtain ⟨taken, kept⟩ := split
        cases kept with
        | nil => exact later
        | cons pair kept =>
            exact List.forall_mem_cons.mpr
              ⟨⟨List.cons_ne_nil _ _, vec, List.mem_cons_self, part⟩, later⟩

/-- The first pair of all is moved. -/
theorem sweep_first {pair : IntermediatePair K2 V2} {rest : IntermediateVec K2 V2}
    {vectors : IntermediateVectors K2 V2} (lawful : Lawful lt) :
    pair ∈ (sweep lt pair.first.deref ((pair :: rest) :: vectors)).1 := by
  have same : keyEqual2 lt pair.first.deref pair.first.deref = true := lawful.equivalent_self _
  simp [sweep, startsAfter, lawful.lt_self, takeKey, same]

end Moves

/-! ## A round -/

section Round

variable [DecidableEq K2] [DecidableEq V2] {lt : K2 → K2 → Bool}
  {vectors sorted left : IntermediateVectors K2 V2} {shuffleVec : IntermediateVec K2 V2}

theorem shuffleRound_eq_some :
    shuffleRound lt vectors sorted = some (shuffleVec, left) ↔
      IsSort vectorComp vectors sorted ∧
        ∃ key, currKey sorted = some key ∧ sweep lt key sorted = (shuffleVec, left) := by
  rw [shuffleRound]
  split <;> simp [*]

/-- A round loses no pair and makes none. -/
theorem shuffleRound_perm (round : shuffleRound lt vectors sorted = some (shuffleVec, left)) :
    shuffleVec ++ left.flatten ~ vectors.flatten := by
  obtain ⟨isSort, key, -, swept⟩ := shuffleRound_eq_some.mp round
  have moved : (sweep lt key sorted).1 ++ (sweep lt key sorted).2.flatten ~ sorted.flatten :=
    sweep_perm sorted
  rw [swept] at moved
  exact moved.trans isSort.1.flatten

/-- The vectors left are not empty, and sorted as they were. -/
theorem shuffleRound_left (round : shuffleRound lt vectors sorted = some (shuffleVec, left))
    (nonempty : ∀ vec ∈ vectors, vec ≠ [])
    (ordered : ∀ vec ∈ vectors, Sorted (intermediatePairComp lt) vec) :
    ∀ vec ∈ left, vec ≠ [] ∧ Sorted (intermediatePairComp lt) vec := by
  obtain ⟨isSort, key, -, swept⟩ := shuffleRound_eq_some.mp round
  intro vec member
  have kept : vec ∈ (sweep lt key sorted).2 := by rwa [swept]
  obtain ⟨notNil, old, oldMember, part⟩ :=
    sweep_left (fun vec member => nonempty vec (isSort.1.mem_iff.mp member)) vec kept
  exact ⟨notNil, (ordered old (isSort.1.mem_iff.mp oldMember)).sublist part⟩

/-- There is a round as long as there are vectors. -/
theorem exists_shuffleRound (some : vectors ≠ []) (nonempty : ∀ vec ∈ vectors, vec ≠ []) :
    ∃ sorted, (shuffleRound lt vectors sorted).isSome := by
  obtain ⟨sorted, isSort⟩ := vectorComp_lawful.exists_isSort vectors
  refine ⟨sorted, ?_⟩
  rw [shuffleRound, if_pos isSort, Option.isSome_map]
  have nonemptySorted : ∀ vec ∈ sorted, vec ≠ [] :=
    fun vec member => nonempty vec (isSort.1.mem_iff.mp member)
  rcases sorted with _ | ⟨_ | ⟨pair, rest⟩, sorted⟩
  · exact absurd isSort.1.nil_eq.symm some
  · exact absurd rfl (nonemptySorted [] List.mem_cons_self)
  · rfl

end Round

/-! ## What is left -/

section Complete

variable {lt : K2 → K2 → Bool} {key : K2}

/-- No vector that begins with a larger key stands before one that holds a pair
of the current key. -/
def Undivided (lt : K2 → K2 → Bool) (key : K2) (vectors : IntermediateVectors K2 V2) : Prop :=
  vectors.Pairwise fun vec later =>
    startsAfter lt key vec = true → ∀ pair ∈ later, keyEqual2 lt pair.first.deref key = false

theorem keyEqual2_of_lt {a b : K2} (less : lt a b = true) : keyEqual2 lt b a = false := by
  simp [keyEqual2, less]

variable (lawful : Lawful lt)
include lawful

/-- In a sorted vector all pairs from the given one on are at least it. -/
theorem not_before_of_sorted {pair : IntermediatePair K2 V2} {rest : IntermediateVec K2 V2}
    (sorted : Sorted (intermediatePairComp lt) (pair :: rest))
    (atLeast : lt pair.first.deref key = false) :
    ∀ later ∈ rest, lt later.first.deref key = false := by
  intro later member
  exact lawful.not_lt_trans ((List.pairwise_cons.mp sorted).1 later member) atLeast

theorem startsAfter_sorted {vec : IntermediateVec K2 V2}
    (sorted : Sorted (intermediatePairComp lt) vec) (after : startsAfter lt key vec = true) :
    ∀ pair ∈ vec, keyEqual2 lt pair.first.deref key = false := by
  cases vec with
  | nil => simp
  | cons first rest =>
      refine List.forall_mem_cons.mpr ⟨keyEqual2_of_lt after, fun later member => ?_⟩
      exact keyEqual2_of_lt (lawful.lt_of_lt_of_not_lt after
        ((List.pairwise_cons.mp sorted).1 later member))

/-- After the first pair of the key, those of the key come first. -/
theorem takeKey_visited_complete {vec : IntermediateVec K2 V2}
    (sorted : Sorted (intermediatePairComp lt) vec)
    (atLeast : ∀ pair ∈ vec, lt pair.first.deref key = false) :
    ∀ pair ∈ (takeKey lt key true vec).2, keyEqual2 lt pair.first.deref key = false := by
  induction vec with
  | nil => simp [takeKey]
  | cons pair rest ih =>
      rw [List.forall_mem_cons] at atLeast
      rw [takeKey]
      split
      · exact ih (List.pairwise_cons.mp sorted).2 atLeast.2
      · apply startsAfter_sorted lawful sorted
        by_contra notAfter
        have same : keyEqual2 lt pair.first.deref key = true :=
          equivalent_iff.mpr ⟨atLeast.1, Bool.eq_false_iff.mpr notAfter⟩
        exact absurd same ‹_›

theorem takeKey_complete {vec : IntermediateVec K2 V2}
    (sorted : Sorted (intermediatePairComp lt) vec) :
    ∀ pair ∈ (takeKey lt key false vec).2, keyEqual2 lt pair.first.deref key = false := by
  induction vec with
  | nil => simp [takeKey]
  | cons pair rest ih =>
      have sortedRest := (List.pairwise_cons.mp sorted).2
      rw [takeKey]
      split
      · have same := equivalent_iff.mp ‹_›
        exact takeKey_visited_complete lawful sortedRest
          (not_before_of_sorted lawful sorted same.1)
      · exact List.forall_mem_cons.mpr ⟨Bool.eq_false_iff.mpr ‹_›, ih sortedRest⟩

/-- **The sweep takes all pairs of the current key exactly if the vectors are not
divided.** -/
theorem sweep_complete_iff {vectors : IntermediateVectors K2 V2}
    (sorted : ∀ vec ∈ vectors, Sorted (intermediatePairComp lt) vec) :
    (∀ vec ∈ (sweep lt key vectors).2, ∀ pair ∈ vec,
      keyEqual2 lt pair.first.deref key = false) ↔ Undivided lt key vectors := by
  induction vectors with
  | nil => simp [sweep, Undivided]
  | cons vec vectors ih =>
      rw [List.forall_mem_cons] at sorted
      rw [sweep, Undivided, List.pairwise_cons]
      split
      · -- The sweep stops here, and what follows must not hold the key.
        rw [List.forall_mem_cons]
        constructor
        · rintro ⟨-, none⟩
          refine ⟨fun later member _ => none later member, ?_⟩
          exact List.pairwise_of_forall_mem_list fun _ _ later member _ => none later member
        · rintro ⟨none, -⟩
          exact ⟨startsAfter_sorted lawful sorted.1 ‹_›, fun later member => none later member ‹_›⟩
      · have complete : ∀ pair ∈ (takeKey lt key false vec).2,
            keyEqual2 lt pair.first.deref key = false := takeKey_complete lawful sorted.1
        generalize takeKey lt key false vec = split at complete
        obtain ⟨taken, kept⟩ := split
        have later : (∀ left ∈ (if kept.isEmpty then (sweep lt key vectors).2
              else kept :: (sweep lt key vectors).2), ∀ pair ∈ left,
                keyEqual2 lt pair.first.deref key = false) ↔ Undivided lt key vectors := by
          rw [← ih sorted.2]
          cases kept with
          | nil => exact Iff.rfl
          | cons pair kept => exact List.forall_mem_cons.trans (and_iff_right complete)
        refine later.trans ⟨fun undivided => ⟨?_, undivided⟩, And.right⟩
        exact fun _ _ after => absurd after ‹_›

/-- With at most two vectors nothing is divided: the first holds the current key
itself. -/
theorem undivided_of_two {pair : IntermediatePair K2 V2} {rest : IntermediateVec K2 V2}
    {vectors : IntermediateVectors K2 V2} (few : vectors.length ≤ 1) :
    Undivided lt pair.first.deref ((pair :: rest) :: vectors) := by
  refine List.pairwise_cons.mpr ⟨fun later _ after => ?_, ?_⟩
  · cases after.symm.trans (lawful.lt_self pair.first.deref)
  · rcases vectors with _ | ⟨vec, _ | ⟨other, vectors⟩⟩
    · exact .nil
    · exact List.pairwise_singleton _ _
    · exact absurd few (by simp)

/-- In the order of their first keys, which is the one the sweep is written for,
the vectors are not divided. -/
theorem undivided_of_ordered {vectors : IntermediateVectors K2 V2}
    (sorted : ∀ vec ∈ vectors, Sorted (intermediatePairComp lt) vec)
    (ordered : vectors.Pairwise fun vec later => ∀ first ∈ vec.head?, ∀ next ∈ later.head?,
      lt next.first.deref first.first.deref = false) : Undivided lt key vectors := by
  refine ordered.imp_of_mem fun {vec later} _ member inOrder after => ?_
  cases vec with
  | nil => cases after
  | cons first rest =>
      cases later with
      | nil => simp
      | cons next tail =>
          apply startsAfter_sorted lawful (sorted _ member)
          exact lawful.lt_of_lt_of_not_lt after (inOrder first rfl next rfl)

end Complete

end Os2018.MapReduce
