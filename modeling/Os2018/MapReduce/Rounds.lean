import Os2018.Library.Census
import Os2018.Library.Transition
import Os2018.MapReduce.Barrier

/-!
# Rounds of the barrier

Threads call `barrier()` again and again. A call counts the caller and either
waits or, for the last thread, resets the count and wakes those that wait. A
thread that waits returns when it gets the mutex back, which the operating system
may let it do without a broadcast. A thread that was woken may still be on its
way out when others have begun the next round.

In a run without such a spurious return all threads are in one round or on their
way to the next (`InRound`), and nobody returns from a call before all have
entered theirs. Nothing in `barrier()` asks after the wait whether the round is
over, so the order of the rounds is kept exactly as long as no return is spurious
(`barrier_rounds_iff`).
-/

set_option autoImplicit false

namespace Os2018.MapReduce

open Transition Census Function

/-! ## The code -/

/-- Where a thread is: outside of `barrier()`, in the wait, or in the wait after
a broadcast. -/
inductive Place where
  | outside
  | waiting
  | woken
deriving DecidableEq, Repr

/-- The barrier and its threads. `entered` and `returned` count the calls that
each thread has entered and returned from. -/
structure Rounds (n : Nat) where
  barrier : Barrier
  place : Fin (n + 1) → Place
  entered : Fin (n + 1) → Nat
  returned : Fin (n + 1) → Nat

/-- A thread calls `barrier()` and gets the mutex, or gets the mutex back in
`pthread_cond_wait` and returns. -/
inductive RoundEvent (n : Nat) where
  | call (i : Fin (n + 1))
  | resume (i : Fin (n + 1))

/-- `pthread_cond_broadcast` for one thread. -/
def Place.broadcast : Place → Place
  | .waiting => .woken
  | place => place

namespace Rounds

variable {n : Nat}

def init (n : Nat) : Rounds n where
  barrier := .init (n + 1)
  place := fun _ => .outside
  entered := fun _ => 0
  returned := fun _ => 0

/-- `++count` and the wait or the broadcast. The last thread returns from the
call. -/
def call (s : Rounds n) (i : Fin (n + 1)) : Rounds n :=
  match s.barrier.enter with
  | (barrier, true) =>
      { s with barrier, place := update s.place i .waiting,
               entered := update s.entered i (s.entered i + 1) }
  | (barrier, false) =>
      { barrier, place := fun j => (s.place j).broadcast,
        entered := update s.entered i (s.entered i + 1),
        returned := update s.returned i (s.returned i + 1) }

def resume (s : Rounds n) (i : Fin (n + 1)) : Rounds n :=
  { s with place := update s.place i .outside,
           returned := update s.returned i (s.returned i + 1) }

def next (s : Rounds n) : RoundEvent n → Option (Rounds n)
  | .call i => if s.place i = .outside then some (s.call i) else none
  | .resume i => if s.place i = .outside then none else some (s.resume i)

/-! ## Statement -/

/-- Nobody has returned from more calls than every thread has entered. -/
def InOrder (s : Rounds n) : Prop := ∀ i j, s.returned i ≤ s.entered j

/-- Only a thread that was woken by a broadcast returns from the wait. -/
def NotSpurious (s : Rounds n) (event : RoundEvent n) : Prop :=
  ∀ i, event = .resume i → s.place i = .woken

/-! ## One round -/

/-- The threads that the count counts. -/
def waiting : Place → Nat
  | .waiting => 1
  | _ => 0

theorem waiting_le_one (place : Place) : waiting place ≤ 1 := by
  cases place <;> simp [waiting]

theorem eq_waiting (place : Place) (waits : waiting place = 1) : place = .waiting := by
  cases place with
  | waiting => rfl
  | outside | woken => cases waits

/-- A thread outside has finished the round, a thread that waits is in the next
one, and a thread that was woken is about to finish. -/
def Standing (round : Nat) (entered returned : Nat) : Place → Prop
  | .outside => entered = round ∧ returned = round
  | .waiting => entered = round + 1 ∧ returned = round
  | .woken => entered = round ∧ returned + 1 = round

structure InRound (s : Rounds n) (round : Nat) : Prop where
  standing : ∀ i, Standing round (s.entered i) (s.returned i) (s.place i)
  count : s.barrier.count = total waiting s.place
  numThreads : s.barrier.numThreads = n + 1
  incomplete : s.barrier.count < n + 1

variable {s t : Rounds n} {round : Nat} {i : Fin (n + 1)}

theorem inRound_init (n : Nat) : (init n).InRound 0 where
  standing := fun _ => ⟨rfl, rfl⟩
  count := (total_eq_zero fun _ => rfl).symm
  numThreads := rfl
  incomplete := Nat.succ_pos n

theorem InRound.standing_of (inRound : s.InRound round) {place : Place}
    (isPlace : s.place i = place) : Standing round (s.entered i) (s.returned i) place :=
  isPlace ▸ inRound.standing i

theorem InRound.returned_le (inRound : s.InRound round) (i : Fin (n + 1)) :
    s.returned i ≤ round := by
  have standing := inRound.standing i
  cases place : s.place i <;> rw [place] at standing <;> simp only [Standing] at standing <;> omega

theorem InRound.le_entered (inRound : s.InRound round) (i : Fin (n + 1)) :
    round ≤ s.entered i := by
  have standing := inRound.standing i
  cases place : s.place i <;> rw [place] at standing <;> simp only [Standing] at standing <;> omega

theorem InRound.inOrder (inRound : s.InRound round) : s.InOrder :=
  fun i j => (inRound.returned_le i).trans (inRound.le_entered j)

/-- Someone does not wait. -/
theorem InRound.exists_not_waiting (inRound : s.InRound round) : ∃ j, s.place j ≠ .waiting := by
  by_contra all
  simp only [not_exists, not_not] at all
  have count := inRound.count
  have everyone : total waiting (fun _ : Fin (n + 1) => Place.waiting) = n + 1 := by
    simp [total, waiting]
  rw [show s.place = fun _ => .waiting from funext all, everyone] at count
  exact absurd inRound.incomplete (by omega)

/-- When the last thread calls, the others wait. -/
theorem InRound.others_waiting (inRound : s.InRound round) (outside : s.place i = .outside)
    (last : n + 1 ≤ s.barrier.count + 1) {j : Fin (n + 1)} (other : j ≠ i) :
    s.place j = .waiting := by
  have light : waiting (s.place i) = 0 := by
    rw [outside]
    rfl
  have full : Fintype.card (Fin (n + 1)) ≤ total waiting s.place + 1 := by
    rw [Fintype.card_fin, ← inRound.count]
    exact last
  exact eq_of_card_le waiting_le_one eq_waiting light full other

/-- A thread that is not the last waits. -/
theorem InRound.wait (inRound : s.InRound round) (outside : s.place i = .outside)
    (notLast : s.barrier.count + 1 < n + 1) : (s.call i).InRound round := by
  have called : s.call i =
      { s with barrier := { s.barrier with count := s.barrier.count + 1 }
               place := update s.place i .waiting
               entered := update s.entered i (s.entered i + 1) } := by
    rw [call, Barrier.enter, if_pos (by rw [inRound.numThreads]; exact notLast)]
  rw [called]
  refine ⟨?_, ?_, inRound.numThreads, notLast⟩
  · intro j
    dsimp only
    by_cases mover : j = i
    · subst mover
      obtain ⟨entered, returned⟩ := inRound.standing_of outside
      rw [update_self, update_self]
      exact ⟨by rw [entered], returned⟩
    · rw [update_of_ne mover, update_of_ne mover]
      exact inRound.standing j
  · dsimp only
    rw [inRound.count, total_update, total_eq waiting s.place i, outside]
    simp only [waiting]
    omega

/-- The last thread begins the next round. -/
theorem InRound.release (inRound : s.InRound round) (outside : s.place i = .outside)
    (last : n + 1 ≤ s.barrier.count + 1) : (s.call i).InRound (round + 1) := by
  have called : s.call i =
      { barrier := { s.barrier with count := 0 }
        place := fun j => (s.place j).broadcast
        entered := update s.entered i (s.entered i + 1)
        returned := update s.returned i (s.returned i + 1) } := by
    rw [call, Barrier.enter, if_neg (by rw [inRound.numThreads]; exact not_lt.mpr last)]
  rw [called]
  refine ⟨?_, ?_, inRound.numThreads, Nat.succ_pos n⟩
  · intro j
    dsimp only
    by_cases mover : j = i
    · subst mover
      obtain ⟨entered, returned⟩ := inRound.standing_of outside
      rw [update_self, update_self, outside]
      exact ⟨by rw [entered], by rw [returned]⟩
    · have waits := inRound.others_waiting outside last mover
      obtain ⟨entered, returned⟩ := inRound.standing_of waits
      rw [update_of_ne mover, update_of_ne mover, waits]
      exact ⟨entered, by rw [returned]⟩
  · refine (total_eq_zero ?_).symm
    intro j
    dsimp only
    cases s.place j <;> rfl

/-- A thread that was woken leaves. -/
theorem InRound.resume (inRound : s.InRound round) (woken : s.place i = .woken) :
    (s.resume i).InRound round := by
  refine ⟨?_, ?_, inRound.numThreads, inRound.incomplete⟩
  · intro j
    dsimp only [Rounds.resume]
    by_cases mover : j = i
    · subst mover
      obtain ⟨entered, returned⟩ := inRound.standing_of woken
      rw [update_self, update_self]
      exact ⟨entered, returned⟩
    · rw [update_of_ne mover, update_of_ne mover]
      exact inRound.standing j
  · dsimp only [Rounds.resume]
    rw [inRound.count, total_update, total_eq waiting s.place i, woken]
    rfl

/-! ## Every run -/

/-- All threads are in one round or on their way to the next. -/
def Ordered (s : Rounds n) : Prop := ∃ round, s.InRound round

theorem InRound.next (inRound : s.InRound round) {event : RoundEvent n}
    (notSpurious : s.NotSpurious event) (step : s.next event = some t) : t.Ordered := by
  cases event with
  | call i =>
      rw [Rounds.next] at step
      split_ifs at step with outside
      cases step
      by_cases notLast : s.barrier.count + 1 < n + 1
      · exact ⟨round, inRound.wait outside notLast⟩
      · exact ⟨round + 1, inRound.release outside (not_lt.mp notLast)⟩
  | resume i =>
      rw [Rounds.next] at step
      split_ifs at step
      cases step
      exact ⟨round, inRound.resume (notSpurious i rfl)⟩

/-- A thread that returns without a broadcast leaves a round that some thread
has not entered. -/
theorem InRound.spurious (inRound : s.InRound round) {event : RoundEvent n}
    (spurious : ¬ s.NotSpurious event) (step : s.next event = some t) : ¬ t.InOrder := by
  simp only [NotSpurious, not_forall] at spurious
  obtain ⟨i, rfl, notWoken⟩ := spurious
  rw [Rounds.next] at step
  split_ifs at step with outside
  cases step
  have waits : s.place i = .waiting := by
    cases place : s.place i with
    | waiting => rfl
    | outside => exact absurd place outside
    | woken => exact absurd place notWoken
  obtain ⟨j, absent⟩ := inRound.exists_not_waiting
  have returned : s.returned i = round := (inRound.standing_of waits).2
  have entered : s.entered j = round := by
    cases place : s.place j with
    | waiting => exact absurd place absent
    | outside | woken => exact (inRound.standing_of place).1
  intro inOrder
  have order : update s.returned i (s.returned i + 1) i ≤ s.entered j := inOrder i j
  rw [update_self, returned, entered] at order
  exact absurd order (Nat.not_succ_le_self round)

end Rounds

/-- **The order of the rounds.** For every number of threads and every
interleaving of their calls, nobody returns from a call before all threads have
entered theirs exactly if nobody returns from the wait without a broadcast. -/
theorem barrier_rounds_iff {n : Nat} {events : List (RoundEvent n)} {s : Rounds n}
    (run : exec Rounds.next (Rounds.init n) events = some s) :
    HoldsAlong Rounds.next Rounds.InOrder (Rounds.init n) events ↔
      StepsMeet Rounds.next Rounds.NotSpurious (Rounds.init n) events := by
  refine exec_holds_iff (P := Rounds.Ordered) ?_ ?_ ?_ ⟨0, Rounds.inRound_init n⟩ run
  · exact fun s ⟨round, inRound⟩ => inRound.inOrder
  · exact fun s event t ⟨round, inRound⟩ notSpurious step => inRound.next notSpurious step
  · exact fun s event t ⟨round, inRound⟩ spurious step => inRound.spurious spurious step

/-- Thread 1 releases thread 0 and calls again before thread 0 has left the first
call. -/
theorem barrier_rounds_iff_two :
    HoldsAlong Rounds.next Rounds.InOrder (Rounds.init 1)
      [.call 0, .call 1, .call 1, .resume 0] := by
  refine (barrier_rounds_iff rfl).mpr ?_
  have enters : ∀ (s : Rounds 1) (i : Fin 2), s.NotSpurious (.call i) := by
    intro s i j resumed
    cases resumed
  refine (stepsMeet_cons rfl).mpr ⟨enters _ 0, (stepsMeet_cons rfl).mpr ⟨enters _ 1,
    (stepsMeet_cons rfl).mpr ⟨enters _ 1, (stepsMeet_cons rfl).mpr ⟨?_, stepsMeet_nil _ _⟩⟩⟩⟩
  intro i resumed
  cases resumed
  rfl

/-- **A spurious wake-up.** Thread 0 returns from its first call although thread
1 has entered none. -/
theorem spurious_return_breaks_round : ∃ s : Rounds 1,
    exec Rounds.next (Rounds.init 1) [.call 0, .resume 0] = some s ∧ ¬ s.InOrder := by
  refine ⟨_, rfl, ?_⟩
  intro inOrder
  exact absurd (inOrder 0 1) (Nat.not_succ_le_zero 0)

end Os2018.MapReduce
