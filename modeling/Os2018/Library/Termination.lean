import Os2018.Library.Transition
import Mathlib.Order.WellFounded

/-!
# Runs that end

A rank in a well-founded order is lowered by every step that starts in a state
with an invariant. Then no run from such a state goes on for ever
(`Ranked.not_infinite`), and every run can be continued to a state in which
nothing is left to do (`Ranked.exists_end`).
-/

set_option autoImplicit false

namespace Transition

universe u v w

variable {State : Type u} {Event : Type v} {Rank : Type w}

/-- Some schedule goes on for ever from the state. -/
def InfiniteRun (next : State → Event → Option State) (s : State) : Prop :=
  ∃ (states : Nat → State) (events : Nat → Event), states 0 = s ∧
    ∀ k, next (states k) (events k) = some (states (k + 1))

/-- Every step from a state with the invariant keeps it and lowers the rank. -/
structure Ranked [LT Rank] (next : State → Event → Option State) (P : State → Prop)
    (rank : State → Rank) : Prop where
  keep : ∀ s event t, P s → next s event = some t → P t
  lower : ∀ s event t, P s → next s event = some t → rank t < rank s

variable [LT Rank] [WellFoundedLT Rank] {next : State → Event → Option State} {P : State → Prop}
  {rank : State → Rank} {s : State}

theorem Ranked.not_infinite (ranked : Ranked next P rank) (start : P s) :
    ¬ InfiniteRun next s := by
  rintro ⟨states, events, first, steps⟩
  have invariant : ∀ k, P (states k) := by
    intro k
    induction k with
    | zero => exact first ▸ start
    | succ k ih => exact ranked.keep _ _ _ ih (steps k)
  obtain ⟨k, notLower⟩ : ∃ k, ¬ rank (states (k + 1)) < rank (states k) :=
    WellFounded.not_rel_apply_succ fun k => rank (states k)
  exact notLower (ranked.lower _ _ _ (invariant k) (steps k))

theorem Ranked.exists_end (ranked : Ranked next P rank) (start : P s) :
    ∃ events t, exec next s events = some t ∧ P t ∧ ∀ event, next t event = none := by
  induction s using (InvImage.wf rank wellFounded_lt).induction with
  | _ s ih =>
      by_cases stuck : ∀ event, next s event = none
      · exact ⟨[], s, rfl, start, stuck⟩
      · simp only [not_forall, Option.ne_none_iff_exists'] at stuck
        obtain ⟨event, t, step⟩ := stuck
        obtain ⟨events, u, run, invariant, ended⟩ :=
          ih t (ranked.lower s event t start step) (ranked.keep s event t start step)
        exact ⟨event :: events, u, by rw [exec_cons, step, Option.bind_some, run], invariant, ended⟩

end Transition
