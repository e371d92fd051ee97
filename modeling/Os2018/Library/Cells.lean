import Os2018.Library.Transition

/-!
# Cells

A cell is a part of the state that holds a value or nothing. Some events write
it, and only when it holds nothing. Any other event changes the value that the
cell holds, or takes it away, in a way that depends on the event alone (`Cell`).

What a cell holds after a run is then what was written to it last, changed by the
events since (`Cell.history`).
-/

set_option autoImplicit false

namespace Transition

universe u v w

variable {State : Type u} {Event : Type v} {Value : Type w}

/-- From states with the invariant, the events write and change the cell. -/
structure Cell (next : State → Event → Option State) (P : State → Prop)
    (holds : State → Option Value) (Writes : State → Event → Value → Prop)
    (change : Event → Value → Option Value) : Prop where
  written : ∀ s event t value, P s → next s event = some t → Writes s event value →
    holds s = none ∧ holds t = some value
  changed : ∀ s event t, P s → next s event = some t → (∀ value, ¬ Writes s event value) →
    holds t = (holds s).bind (change event)

/-- A value after some events that change it. -/
def changeAll (change : Event → Value → Option Value) (value : Value) (events : List Event) :
    Option Value :=
  events.foldlM (fun value event => change event value) value

section Cell

variable {next : State → Event → Option State} {P : State → Prop} {holds : State → Option Value}
  {Writes : State → Event → Value → Prop} {change : Event → Value → Option Value}
  {s t : State} {events : List Event} {value : Value}

@[simp] theorem changeAll_nil : changeAll change value [] = some value := rfl

theorem changeAll_cons (event : Event) :
    changeAll change value (event :: events) =
      (change event value).bind fun value => changeAll change value events :=
  List.foldlM_cons

theorem changeAll_concat (event : Event) :
    changeAll change value (events ++ [event]) =
      (changeAll change value events).bind (change event) := by
  rw [changeAll, changeAll, List.foldlM_append]
  refine congrArg _ (funext fun last => ?_)
  exact (changeAll_cons event).trans (Option.bind_fun_some _)

/-- A value that no event takes away is not written over. -/
theorem Cell.since (cell : Cell next P holds Writes change)
    (keep : ∀ s event t, P s → next s event = some t → P t) (start : P s)
    {first : Value} (found : holds s = some first) (run : exec next s events = some t)
    (left : changeAll change first events = some value) : holds t = some value := by
  induction events generalizing s first with
  | nil =>
      cases run
      rwa [← left]
  | cons event events ih =>
      obtain ⟨u, step, rest⟩ := Option.bind_eq_some_iff.mp run
      rw [changeAll_cons] at left
      obtain ⟨second, isSecond, left⟩ := Option.bind_eq_some_iff.mp left
      have noWrite : ∀ other, ¬ Writes s event other := by
        intro other writes
        have empty := (cell.written s event u other start step writes).1
        rw [found] at empty
        cases empty
      refine ih (keep s event u start step) ?_ rest left
      rw [cell.changed s event u start step noWrite, found, Option.bind_some, isSecond]

/-- **The history of a cell.** -/
theorem Cell.history (cell : Cell next P holds Writes change)
    (keep : ∀ s event t, P s → next s event = some t → P t) (start : P s)
    (empty : holds s = none) (run : exec next s events = some t) :
    holds t = some value ↔ ∃ before event after u first, events = before ++ event :: after ∧
      exec next s before = some u ∧ Writes u event first ∧
        changeAll change first after = some value := by
  constructor
  · intro found
    refine (exec_history (P := fun events t => P t ∧ ∀ value, holds t = some value →
      ∃ before event after u first, events = before ++ event :: after ∧
        exec next s before = some u ∧ Writes u event first ∧
          changeAll change first after = some value) ?_ ?_ run).2 value found
    · refine ⟨start, fun value found => ?_⟩
      rw [empty] at found
      cases found
    · intro events t event u run history step
      obtain ⟨invariant, past⟩ := history
      refine ⟨keep t event u invariant step, fun value found => ?_⟩
      by_cases writes : ∃ first, Writes t event first
      · obtain ⟨first, writes⟩ := writes
        have isFirst := (cell.written t event u first invariant step writes).2
        rw [found, Option.some.injEq] at isFirst
        exact ⟨events, event, [], t, first, rfl, run, writes, isFirst ▸ rfl⟩
      · rw [cell.changed t event u invariant step (not_exists.mp writes)] at found
        obtain ⟨earlier, isEarlier, isValue⟩ := Option.bind_eq_some_iff.mp found
        obtain ⟨before, writer, after, v, first, rfl, runBefore, writes, left⟩ :=
          past earlier isEarlier
        refine ⟨before, writer, after ++ [event], v, first, ?_, runBefore, writes, ?_⟩
        · rw [List.append_assoc, List.cons_append]
        · rw [changeAll_concat, left, Option.bind_some, isValue]
  · rintro ⟨before, event, after, u, first, rfl, runBefore, writes, left⟩
    have invariant : P u := exec_history (P := fun _ t => P t) start
      (fun _ t event u _ invariant step => keep t event u invariant step) runBefore
    rw [exec_append runBefore] at run
    obtain ⟨v, step, rest⟩ := Option.bind_eq_some_iff.mp run
    exact cell.since keep (keep u event v invariant step)
      (cell.written u event v first invariant step writes).2 rest left

end Cell

end Transition
