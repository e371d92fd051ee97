import Mathlib.Data.List.FinRange
import Mathlib.Data.List.OfFn
import Os2018.MapReduce.Shuffle

/-!
# All rounds of the shuffle

The outer loop of `shufflePhase` goes on until no vectors are left. Here it is
run with every read of a first pair checked, and with a bound on its rounds. It
never reads the first pair of an empty vector, and it ends: a round takes at
least the very first pair (`shufflePhase_deals`).

A vector that the sweep reaches gives all its pairs of the current key, since it
is sorted, and the others give none. So the pairs of one key in one vector stay
together, in whatever order the rounds see the vectors. They are followed from
round to round by the number of their vector.
-/

set_option autoImplicit false

namespace Os2018.MapReduce

open WeakOrder
open scoped List

universe u v w

variable {K2 : Type u} {V2 : Type v}

/-! ## The code -/

/-- `sweep`, with the read of `(*vecIter)[0]` checked. -/
def checkedSweep (lt : K2 → K2 → Bool) (currKey : K2) :
    IntermediateVectors K2 V2 → Option (IntermediateVec K2 V2 × IntermediateVectors K2 V2)
  | [] => some ([], [])
  | [] :: _ => none
  | (pair :: rest) :: vectors =>
      if lt currKey pair.first.deref then some ([], (pair :: rest) :: vectors)
      else do
        let (taken, kept) := takeKey lt currKey false (pair :: rest)
        let (shuffleVec, vectorsLeft) ← checkedSweep lt currKey vectors
        return (taken ++ shuffleVec, if kept.isEmpty then vectorsLeft else kept :: vectorsLeft)

/-- The outer loop: the vectors it pushes. `order` gives the order in which
`sort` leaves the vectors in a round; `sort` reads the first pair of each. The
result is `none` when there is nothing to read, or after `fuel` rounds. -/
def shuffleLoop (lt : K2 → K2 → Bool)
    (order : Nat → IntermediateVectors K2 V2 → IntermediateVectors K2 V2) :
    Nat → Nat → IntermediateVectors K2 V2 → Option (IntermediateVectors K2 V2)
  | 0, _, _ => none
  | fuel + 1, round, vectors =>
      if vectors.isEmpty then some []
      else if vectors.any List.isEmpty then none
      else
        let sorted := order round vectors
        match currKey sorted with
        | none => none
        | some key => do
            let (shuffleVec, left) ← checkedSweep lt key sorted
            let shuffleVectors ← shuffleLoop lt order fuel (round + 1) left
            return shuffleVec :: shuffleVectors

/-- `shufflePhase`, up to the wake-ups. -/
def shufflePhase (lt : K2 → K2 → Bool)
    (order : Nat → IntermediateVectors K2 V2 → IntermediateVectors K2 V2) (fuel : Nat)
    (vectors : IntermediateVectors K2 V2) : Option (IntermediateVectors K2 V2) :=
  shuffleLoop lt order fuel 0 (eraseEmpty vectors)

/-! ## Statement -/

/-- A group, and what each of the numbered vectors gives to it: nothing, or all
its pairs of one key. -/
structure Dealt {n : Nat} (lt : K2 → K2 → Bool) (vector : Fin n → IntermediateVec K2 V2)
    (group : IntermediateVec K2 V2) (share : Fin n → IntermediateVec K2 V2) : Prop where
  nonempty : group ≠ []
  uniform : ∀ pair ∈ group, ∀ other ∈ group, keyEqual2 lt pair.first.deref other.first.deref = true
  collected : group ~ (List.ofFn share).flatten
  whole : ∀ i, ∀ pair ∈ share i, share i ~
    (vector i).filter fun other => keyEqual2 lt other.first.deref pair.first.deref

/-- The groups share out the numbered vectors. -/
def Deals {n : Nat} (lt : K2 → K2 → Bool) (vector : Fin n → IntermediateVec K2 V2)
    (groups : IntermediateVectors K2 V2) : Prop :=
  ∃ shares : List (Fin n → IntermediateVec K2 V2),
    List.Forall₂ (Dealt lt vector) groups shares ∧
      ∀ i, vector i ~ (shares.map fun share => share i).flatten

/-! ## The checked sweep -/

theorem checkedSweep_eq {lt : K2 → K2 → Bool} {key : K2} {vectors : IntermediateVectors K2 V2}
    (nonempty : ∀ vec ∈ vectors, vec ≠ []) :
    checkedSweep lt key vectors = some (sweep lt key vectors) := by
  induction vectors with
  | nil => rfl
  | cons vec vectors ih =>
      rw [List.forall_mem_cons] at nonempty
      cases vec with
      | nil => exact absurd rfl nonempty.1
      | cons pair rest =>
          rw [checkedSweep, sweep, startsAfter, ih nonempty.2]
          split_ifs <;> rfl

/-- A round of the loop is a round of `shuffleRound`. -/
theorem shuffleLoop_round [DecidableEq K2] [DecidableEq V2] {lt : K2 → K2 → Bool}
    {order : Nat → IntermediateVectors K2 V2 → IntermediateVectors K2 V2} {fuel round : Nat}
    {vectors groups : IntermediateVectors K2 V2} (more : vectors ≠ [])
    (isSort : IsSort vectorComp vectors (order round vectors))
    (run : shuffleLoop lt order (fuel + 1) round vectors = some groups) :
    ∃ group left later, groups = group :: later ∧
      shuffleRound lt vectors (order round vectors) = some (group, left) ∧
      shuffleLoop lt order fuel (round + 1) left = some later := by
  have notEmpty : vectors.isEmpty = false := by simpa using more
  rw [shuffleLoop, if_neg (by simp [notEmpty])] at run
  split_ifs at run with noneEmpty
  have nonempty : ∀ vec ∈ order round vectors, vec ≠ [] := by
    intro vec member isNil
    exact noneEmpty (List.any_eq_true.mpr ⟨vec, isSort.1.mem_iff.mp member, by simp [isNil]⟩)
  cases current : currKey (order round vectors) with
  | none => simp [current] at run
  | some key =>
      simp only [current, checkedSweep_eq nonempty] at run
      obtain ⟨_, swept, rest⟩ := Option.bind_eq_some_iff.mp run
      cases swept
      obtain ⟨later, isLater, result⟩ := Option.bind_eq_some_iff.mp rest
      exact ⟨_, _, later, (Option.some.inj result).symm,
        shuffleRound_eq_some.mpr ⟨isSort, key, current, rfl⟩, isLater⟩

/-! ## Numbered vectors -/

section Numbered

variable {n : Nat} {lt : K2 → K2 → Bool} {key : K2}

/-- A permutation of the images is the images in another order. -/
theorem exists_perm_map {ι : Type w} {α : Type u} {f : ι → α} {images : List α} {ids : List ι}
    (perm : images ~ ids.map f) : ∃ reordered, reordered ~ ids ∧ images = reordered.map f := by
  generalize target : ids.map f = list at perm
  induction perm generalizing ids with
  | nil => exact ⟨[], by rw [List.map_eq_nil_iff.mp target], rfl⟩
  | cons x _ ih =>
      obtain ⟨i, rest, rfl, rfl, isRest⟩ := List.map_eq_cons_iff.mp target
      obtain ⟨reordered, isPerm, rfl⟩ := ih isRest
      exact ⟨i :: reordered, isPerm.cons i, rfl⟩
  | swap x y list =>
      obtain ⟨i, rest, rfl, rfl, isRest⟩ := List.map_eq_cons_iff.mp target
      obtain ⟨j, rest, rfl, rfl, rfl⟩ := List.map_eq_cons_iff.mp isRest
      exact ⟨j :: i :: rest, .swap .., rfl⟩
  | trans _ _ first second =>
      obtain ⟨middle, isMiddle, rfl⟩ := second target
      obtain ⟨reordered, isPerm, rfl⟩ := first rfl
      exact ⟨reordered, isPerm.trans isMiddle, rfl⟩

/-- Only the listed numbers contribute. -/
theorem flatten_ofFn_perm {α : Type u} {part : Fin n → List α} {ids : List (Fin n)}
    (nodup : ids.Nodup) (others : ∀ i ∉ ids, part i = []) :
    (List.ofFn part).flatten ~ (ids.map part).flatten := by
  have split : List.finRange n ~ ids ++ (List.finRange n).filter (· ∉ ids) := by
    rw [List.perm_ext_iff_of_nodup (List.nodup_finRange n)]
    · intro i
      simp [em]
    · refine nodup.append ((List.nodup_finRange n).filter _) ?_
      intro i member other
      exact absurd member (by simpa using other)
  have nothing : (((List.finRange n).filter (· ∉ ids)).map part).flatten = [] := by
    rw [List.flatten_eq_nil_iff]
    intro list member
    obtain ⟨i, isOther, rfl⟩ := List.mem_map.mp member
    exact others i (by simpa using isOther)
  rw [List.ofFn_eq_map]
  calc ((List.finRange n).map part).flatten
    _ ~ ((ids ++ (List.finRange n).filter (· ∉ ids)).map part).flatten := (split.map part).flatten
    _ = (ids.map part).flatten := by rw [List.map_append, List.flatten_append, nothing,
        List.append_nil]

/-- The sweep takes the key out of the vectors up to some point. -/
theorem sweep_map {ι : Type w} (f : ι → IntermediateVec K2 V2) (ids : List ι) :
    ∃ swept rest, ids = swept ++ rest ∧
      sweep lt key (ids.map f) =
        ((swept.map fun i => (takeKey lt key false (f i)).1).flatten,
          eraseEmpty (swept.map fun i => (takeKey lt key false (f i)).2) ++ rest.map f) := by
  induction ids with
  | nil => exact ⟨[], [], rfl, rfl⟩
  | cons i ids ih =>
      obtain ⟨swept, rest, rfl, result⟩ := ih
      rw [List.map_cons, sweep]
      split_ifs with after
      · exact ⟨[], i :: (swept ++ rest), rfl, rfl⟩
      · refine ⟨i :: swept, rest, rfl, ?_⟩
        rw [result]
        cases kept : (takeKey lt key false (f i)).2 <;> simp [eraseEmpty, kept]

end Numbered

/-! ## One round -/

section Round

variable {n : Nat} (lt : K2 → K2 → Bool) (key : K2) (swept : List (Fin n))
  (vector : Fin n → IntermediateVec K2 V2)

/-- What a round takes from a vector. -/
def share (i : Fin n) : IntermediateVec K2 V2 :=
  if i ∈ swept then (takeKey lt key false (vector i)).1 else []

/-- What a round leaves of a vector. -/
def remaining (i : Fin n) : IntermediateVec K2 V2 :=
  if i ∈ swept then (takeKey lt key false (vector i)).2 else vector i

variable {lt} {key} {swept} {vector}

theorem share_perm (i : Fin n) :
    share lt key swept vector i ++ remaining lt key swept vector i ~ vector i := by
  rw [share, remaining]
  split_ifs
  · exact takeKey_perm false (vector i)
  · exact .refl _

theorem share_equal {i : Fin n} :
    ∀ pair ∈ share lt key swept vector i, keyEqual2 lt pair.first.deref key = true := by
  rw [share]
  split_ifs
  · exact takeKey_taken false (vector i)
  · exact fun pair member => absurd member List.not_mem_nil

theorem remaining_sublist (i : Fin n) : (remaining lt key swept vector i).Sublist (vector i) := by
  rw [remaining]
  split_ifs
  · exact takeKey_kept_sublist false (vector i)
  · exact .refl _

variable (lawful : Lawful lt) (sorted : ∀ i, Sorted (intermediatePairComp lt) (vector i))
include lawful sorted

/-- A vector that gave something has nothing more to give of the key. -/
theorem share_eq_nil_or (i : Fin n) :
    share lt key swept vector i = [] ∨
      ∀ pair ∈ remaining lt key swept vector i, keyEqual2 lt pair.first.deref key = false := by
  rw [share, remaining]
  split_ifs
  · exact .inr (takeKey_complete lawful (sorted i))
  · exact .inl rfl

theorem share_whole (i : Fin n) : ∀ pair ∈ share lt key swept vector i,
    share lt key swept vector i ~
      (vector i).filter fun other => keyEqual2 lt other.first.deref pair.first.deref := by
  intro pair member
  have same : keyEqual2 lt pair.first.deref key = true := share_equal pair member
  have taken : (share lt key swept vector i).filter
      (fun other => keyEqual2 lt other.first.deref pair.first.deref) =
        share lt key swept vector i := by
    rw [List.filter_eq_self]
    intro other isOther
    exact lawful.equivalent_trans (share_equal other isOther) (equivalent_comm.trans same)
  have kept : (remaining lt key swept vector i).filter
      (fun other => keyEqual2 lt other.first.deref pair.first.deref) = [] := by
    rw [List.filter_eq_nil_iff]
    intro other isOther equal
    have free := (share_eq_nil_or lawful sorted i).resolve_left (List.ne_nil_of_mem member)
    have equalKey := lawful.equivalent_trans equal same
    cases (free other isOther).symm.trans equalKey
  calc share lt key swept vector i
    _ = (share lt key swept vector i ++ remaining lt key swept vector i).filter
          fun other => keyEqual2 lt other.first.deref pair.first.deref := by
        rw [List.filter_append, taken, kept, List.append_nil]
    _ ~ _ := (share_perm i).filter _

/-- What is dealt out of the remaining vectors is dealt out of the vectors: no
key is divided between two rounds. -/
theorem Dealt.of_remaining {group : IntermediateVec K2 V2}
    {later : Fin n → IntermediateVec K2 V2}
    (dealt : Dealt lt (remaining lt key swept vector) group later) :
    Dealt lt vector group later where
  nonempty := dealt.nonempty
  uniform := dealt.uniform
  collected := dealt.collected
  whole := by
    intro i pair member
    have block := dealt.whole i pair member
    have isLeft := List.mem_of_mem_filter (block.mem_iff.mp member)
    have nothing : (share lt key swept vector i).filter
        (fun other => keyEqual2 lt other.first.deref pair.first.deref) = [] := by
      rw [List.filter_eq_nil_iff]
      intro other isTaken equal
      have free := (share_eq_nil_or lawful sorted i).resolve_left (List.ne_nil_of_mem isTaken)
      have equalKey := lawful.equivalent_trans (equivalent_comm.trans equal)
        (share_equal other isTaken)
      cases (free pair isLeft).symm.trans equalKey
    have all : share lt key swept vector i ++ remaining lt key swept vector i ~ vector i :=
      share_perm i
    have parts := all.filter fun other => keyEqual2 lt other.first.deref pair.first.deref
    rw [List.filter_append, nothing, List.nil_append] at parts
    exact block.trans parts

end Round

/-! ## The loop -/

section Loop

variable {n : Nat} {lt : K2 → K2 → Bool} {ids : List (Fin n)}
  {vector : Fin n → IntermediateVec K2 V2}

/-- The numbers of the vectors that are not empty, in some order; every vector is
sorted. -/
structure Numbered (lt : K2 → K2 → Bool) (ids : List (Fin n))
    (vector : Fin n → IntermediateVec K2 V2) : Prop where
  nodup : ids.Nodup
  mem_iff : ∀ i, i ∈ ids ↔ vector i ≠ []
  sorted : ∀ i, Sorted (intermediatePairComp lt) (vector i)

theorem Numbered.nonempty (numbered : Numbered lt ids vector) :
    ∀ vec ∈ ids.map vector, vec ≠ [] := by
  intro vec member
  obtain ⟨i, isId, rfl⟩ := List.mem_map.mp member
  exact (numbered.mem_iff i).mp isId

theorem Numbered.reorder (numbered : Numbered lt ids vector) {reordered : List (Fin n)}
    (perm : reordered ~ ids) : Numbered lt reordered vector where
  nodup := perm.nodup_iff.mpr numbered.nodup
  mem_iff := fun i => perm.mem_iff.trans (numbered.mem_iff i)
  sorted := numbered.sorted

theorem eraseEmpty_map {ι : Type w} (ids : List ι) (f : ι → IntermediateVec K2 V2) :
    eraseEmpty (ids.map f) = (ids.filter fun i => !(f i).isEmpty).map f :=
  List.filter_map

/-- The numbers that are left after a sweep. -/
theorem Numbered.remaining (numbered : Numbered lt ids vector) {key : K2}
    {swept : List (Fin n)} :
    Numbered lt (ids.filter fun i => !(remaining lt key swept vector i).isEmpty)
      (remaining lt key swept vector) where
  nodup := numbered.nodup.filter _
  mem_iff := by
    intro i
    have part : (MapReduce.remaining lt key swept vector i).Sublist (vector i) :=
      remaining_sublist i
    rw [List.mem_filter, numbered.mem_iff, Bool.not_eq_true', List.isEmpty_eq_false_iff]
    refine and_iff_right_of_imp fun isLeft empty => isLeft ?_
    exact List.sublist_nil.mp (empty ▸ part)
  sorted := fun i => (numbered.sorted i).sublist (remaining_sublist i)

/-- What a sweep takes and leaves, vector by vector. -/
theorem Numbered.sweep_eq (numbered : Numbered lt ids vector) (key : K2) :
    ∃ swept : List (Fin n), swept.Nodup ∧ sweep lt key (ids.map vector) =
      ((swept.map (share lt key swept vector)).flatten,
        eraseEmpty (ids.map (MapReduce.remaining lt key swept vector))) := by
  obtain ⟨swept, unswept, rfl, result⟩ :
      ∃ swept rest, ids = swept ++ rest ∧ sweep lt key (ids.map vector) =
        ((swept.map fun i => (takeKey lt key false (vector i)).1).flatten,
          eraseEmpty (swept.map fun i => (takeKey lt key false (vector i)).2) ++
            rest.map vector) := sweep_map vector ids
  obtain ⟨sweptNodup, -, apart⟩ := List.nodup_append.mp numbered.nodup
  have taken : (swept.map fun i => (takeKey lt key false (vector i)).1) =
      swept.map (share lt key swept vector) :=
    List.map_congr_left fun i member => (if_pos member).symm
  have kept : (swept.map fun i => (takeKey lt key false (vector i)).2) =
      swept.map (MapReduce.remaining lt key swept vector) :=
    List.map_congr_left fun i member => (if_pos member).symm
  have untouched : unswept.map vector = unswept.map (MapReduce.remaining lt key swept vector) :=
    List.map_congr_left fun i member =>
      (if_neg fun isSwept => apart i isSwept i member rfl).symm
  have whole : eraseEmpty (unswept.map vector) = unswept.map vector := by
    rw [eraseEmpty, List.filter_eq_self]
    intro vec member
    have nonempty := numbered.nonempty vec
    rw [List.map_append] at nonempty
    simpa using nonempty (List.mem_append_right _ member)
  refine ⟨swept, sweptNodup, result.trans ?_⟩
  rw [taken, kept, ← whole, untouched, List.map_append, eraseEmpty, eraseEmpty, eraseEmpty,
    List.filter_append]

/-- One round: its reads are defined, and it deals a group. -/
theorem Numbered.round (numbered : Numbered lt ids vector) (lawful : Lawful lt) (more : ids ≠ []) :
    ∃ key swept group, currKey (ids.map vector) = some key ∧
      checkedSweep lt key (ids.map vector) =
        some (group, eraseEmpty (ids.map (MapReduce.remaining lt key swept vector))) ∧
      Dealt lt vector group (share lt key swept vector) := by
  obtain ⟨first, others, rfl⟩ := List.exists_cons_of_ne_nil more
  obtain ⟨pair, rest, front⟩ :=
    List.exists_cons_of_ne_nil ((numbered.mem_iff first).mp List.mem_cons_self)
  let key := pair.first.deref
  obtain ⟨swept, nodup, result⟩ := numbered.sweep_eq key
  have isCurrent : currKey ((first :: others).map vector) = some key := by
    rw [List.map_cons, front, currKey]
  have moved : pair ∈ (sweep lt key ((first :: others).map vector)).1 := by
    rw [List.map_cons, front]
    exact sweep_first lawful
  have equal : ∀ other ∈ (sweep lt key ((first :: others).map vector)).1,
      keyEqual2 lt other.first.deref key = true := sweep_taken _
  rw [result] at moved equal
  refine ⟨key, swept, _, isCurrent, by rw [checkedSweep_eq numbered.nonempty, result],
    List.ne_nil_of_mem moved, ?_, ?_, fun i => share_whole lawful numbered.sorted i⟩
  · intro one isOne other isOther
    exact lawful.equivalent_trans (equal one isOne) (equivalent_comm.trans (equal other isOther))
  · exact (flatten_ofFn_perm nodup fun i notSwept => if_neg notSwept).symm

variable {order : Nat → IntermediateVectors K2 V2 → IntermediateVectors K2 V2}

/-- The loop deals out the vectors; the number of pairs is enough fuel. -/
theorem Numbered.loop (lawful : Lawful lt)
    (reorders : ∀ round vectors, order round vectors ~ vectors) {total : Nat} (round : Nat)
    (numbered : Numbered lt ids vector) (counted : (ids.map vector).flatten.length = total) :
    ∃ groups, (∀ fuel, total < fuel →
        shuffleLoop lt order fuel round (ids.map vector) = some groups) ∧
      Deals lt vector groups := by
  induction total using Nat.strong_induction_on generalizing round ids vector with
  | _ total ih =>
  by_cases done : ids = []
  · subst done
    refine ⟨[], fun fuel enough => ?_, [], .nil, fun i => ?_⟩
    · obtain ⟨fuel, rfl⟩ := Nat.exists_eq_succ_of_ne_zero (Nat.ne_zero_of_lt enough)
      rfl
    · by_contra notNil
      have isEmpty : vector i = [] := not_not.mp ((numbered.mem_iff i).not.mp List.not_mem_nil)
      exact notNil (isEmpty ▸ .refl _)
  obtain ⟨reordered, perm, isOrder⟩ := exists_perm_map (reorders round (ids.map vector))
  have numbered' : Numbered lt reordered vector := numbered.reorder perm
  have more : reordered ≠ [] := fun none => done (perm.symm.trans (none ▸ .refl _)).eq_nil
  obtain ⟨key, swept, group, isKey, swept_eq, dealt⟩ := numbered'.round lawful more
  have later : Numbered lt
      (reordered.filter fun i => !(MapReduce.remaining lt key swept vector i).isEmpty)
      (MapReduce.remaining lt key swept vector) := numbered'.remaining
  rw [eraseEmpty_map] at swept_eq
  -- The group is not empty, so fewer pairs are left.
  have fewer : ((reordered.filter fun i =>
      !(MapReduce.remaining lt key swept vector i).isEmpty).map
        (MapReduce.remaining lt key swept vector)).flatten.length < total := by
    rw [checkedSweep_eq numbered'.nonempty, Option.some.injEq] at swept_eq
    have parts : (sweep lt key (reordered.map vector)).1 ++
        (sweep lt key (reordered.map vector)).2.flatten ~ (reordered.map vector).flatten :=
      sweep_perm _
    have moved := parts.length_eq
    have same := ((perm.map vector).flatten).length_eq
    have notNil := List.length_pos_iff.mpr dealt.nonempty
    rw [swept_eq, List.length_append] at moved
    dsimp only at moved
    omega
  obtain ⟨groups, runs, shares, each, parts⟩ := ih _ fewer (round + 1) later rfl
  refine ⟨group :: groups, fun fuel enough => ?_, share lt key swept vector :: shares,
    .cons dealt ?_, fun i => ?_⟩
  · obtain ⟨fuel, rfl⟩ := Nat.exists_eq_succ_of_ne_zero (Nat.ne_zero_of_lt enough)
    have notEmpty : (ids.map vector).isEmpty = false := by simpa using done
    have noneEmpty : (ids.map vector).any List.isEmpty = false := by
      rw [List.any_eq_false]
      intro vec member
      simpa using numbered.nonempty vec member
    simp only [shuffleLoop, notEmpty, noneEmpty, isOrder, isKey, swept_eq]
    simp [runs fuel (by omega)]
  · exact each.imp fun _ _ next => next.of_remaining lawful numbered.sorted
  · rw [List.map_cons, List.flatten_cons]
    exact (share_perm i).symm.trans ((parts i).append_left _)

end Loop

/-- The vectors that are not empty, by their numbers. -/
theorem numbered_get {lt : K2 → K2 → Bool} {vectors : IntermediateVectors K2 V2}
    (sorted : ∀ vec ∈ vectors, Sorted (intermediatePairComp lt) vec) :
    Numbered lt ((List.finRange vectors.length).filter fun i => !(vectors.get i).isEmpty)
      vectors.get where
  nodup := (List.nodup_finRange _).filter _
  mem_iff := by simp
  sorted := fun i => sorted _ (List.get_mem ..)

/-- **The shuffle.** Out of vectors sorted by their keys `shufflePhase` makes
non-empty groups of one key each, in whatever order `sort` leaves the vectors in
each round, and after finitely many rounds. All reads are defined, and a vector
gives all its pairs of one key to the same group. -/
theorem shufflePhase_deals {lt : K2 → K2 → Bool} (lawful : Lawful lt)
    {vectors : IntermediateVectors K2 V2}
    (sorted : ∀ vec ∈ vectors, Sorted (intermediatePairComp lt) vec)
    {order : Nat → IntermediateVectors K2 V2 → IntermediateVectors K2 V2}
    (reorders : ∀ round vectors, order round vectors ~ vectors) :
    ∃ groups, (∀ fuel, vectors.flatten.length < fuel →
        shufflePhase lt order fuel vectors = some groups) ∧
      Deals lt vectors.get groups := by
  have start : eraseEmpty vectors =
      ((List.finRange vectors.length).filter fun i => !(vectors.get i).isEmpty).map
        vectors.get := by
    rw [← eraseEmpty_map, ← List.ofFn_eq_map, List.ofFn_get]
  have pairs : (eraseEmpty vectors).flatten.length = vectors.flatten.length := by
    rw [eraseEmpty_flatten]
  obtain ⟨groups, runs, deals⟩ := (numbered_get sorted).loop lawful reorders 0 (start ▸ pairs)
  exact ⟨groups, fun fuel enough => by rw [shufflePhase, start, runs fuel enough], deals⟩

theorem lessNat_lawful : Lawful fun a b : Nat => decide (a < b) where
  irrefl := by simp
  trans := by
    simp only [decide_eq_true_eq]
    omega
  incomp_trans := by
    simp only [decide_eq_true_eq]
    omega

/-- A vector of pairs with the given keys. -/
def vectorOf (keys : List Nat) : IntermediateVec Nat Nat :=
  keys.map fun key => ⟨⟨0, key⟩, ⟨0, 0⟩⟩

/-- The vectors are looked at from the last on in each round. -/
theorem shufflePhase_deals_reversed :
    ∃ groups, (∀ fuel, 4 < fuel →
        shufflePhase (fun a b : Nat => decide (a < b)) (fun _ vectors => vectors.reverse) fuel
          [vectorOf [3, 3], [], vectorOf [1, 3]] = some groups) ∧
      Deals (fun a b : Nat => decide (a < b))
        [vectorOf [3, 3], [], vectorOf [1, 3]].get groups := by
  have sorted : ∀ vec ∈ [vectorOf [3, 3], [], vectorOf [1, 3]],
      Sorted (intermediatePairComp fun a b : Nat => decide (a < b)) vec := by
    simp [vectorOf, Sorted, intermediatePairComp]
  exact shufflePhase_deals lessNat_lawful sorted fun _ vectors => List.reverse_perm vectors

end Os2018.MapReduce
