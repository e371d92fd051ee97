import Os2018.Library.SortedMap
import Os2018.Library.Transition

/-!
# Loops over a map that their body may change

A loop over an ordered map holds an iterator on one entry. When its body has
run, the iterator is advanced to the next greater key of the map as it is by
then. That is defined only while the entry it stands on is still in the map: a
body that erases its own entry leaves nothing to advance from (`erased`).

The rule for such loops is that of an invariant which knows the keys visited so
far (`rangeFor_invariant`). A body that keeps the keys at some entries, and at all
others fails or erases the entry, gives a loop that ends regularly exactly if it
never comes to such another (`rangeFor_ok_iff`). Which entries these are may
depend on the state that the loop has reached; where it does not, there must be
none (`stepsMeet_forall_iff`). The number of rounds is limited by the number of
entries at the start, which is enough for a body that adds none.
-/

set_option autoImplicit false

namespace SortedMap

open Transition

variable {κ ν σ ε : Type*}

/-- One round of the loop. -/
def round (body : κ → σ → Except ε σ) (s : σ) (key : κ) : Option σ := (body key s).toOption

theorem round_eq {body : κ → σ → Except ε σ} {s t : σ} {key : κ} (ran : body key s = .ok t) :
    round body s key = some t := by
  rw [round, ran]
  rfl

variable [LinearOrder κ]

/-- The next greater key. -/
def nextKey? (map : SortedMap κ ν) (key : κ) : Option κ :=
  map.keys.find? fun other => key < other

/-- How a loop goes wrong. -/
inductive LoopError (ε : Type*) where
  | body (error : ε)
  /-- The iterator is advanced although its entry is gone. -/
  | erased
  /-- The loop goes on beyond the number of entries at its start. -/
  | endless

/-- The loop from the entry with the given key on. -/
def loopFrom (view : σ → SortedMap κ ν) (body : κ → σ → Except ε σ) :
    Nat → κ → σ → Except (LoopError ε) σ
  | 0, _, _ => .error .endless
  | rounds + 1, key, s =>
      match body key s with
      | .error error => .error (.body error)
      | .ok s =>
          if (view s).contains key then
            match (view s).nextKey? key with
            | none => .ok s
            | some next => loopFrom view body rounds next s
          else .error .erased

/-- `for (auto& entry : map)`. -/
def rangeFor (view : σ → SortedMap κ ν) (body : κ → σ → Except ε σ) (s : σ) :
    Except (LoopError ε) σ :=
  match (view s).firstKey? with
  | none => .ok s
  | some key => loopFrom view body (view s).keys.length key s

/-- Behind a key come the keys that follow it. -/
theorem nextKey?_eq {map : SortedMap κ ν} {before after : List κ} {key : κ}
    (keys : map.keys = before ++ key :: after) : map.nextKey? key = after.head? := by
  have sorted := map.keys_sorted
  rw [keys] at sorted
  obtain ⟨-, tail, cross⟩ := List.pairwise_append.mp sorted
  have below : before.find? (fun other => decide (key < other)) = none := by
    rw [List.find?_eq_none]
    intro other member
    simpa using le_of_lt (cross other member key List.mem_cons_self)
  rw [nextKey?, keys, List.find?_append, below, Option.none_or, List.find?_cons_of_neg (by simp)]
  cases after with
  | nil => rfl
  | cons next after =>
      have above : key < next := (List.pairwise_cons.mp tail).1 next List.mem_cons_self
      rw [List.find?_cons_of_pos (by simpa using above), List.head?_cons]

/-! ## The rule -/

section Rule

variable {view : σ → SortedMap κ ν} {body : κ → σ → Except ε σ} {keys : List κ}
  {good : σ → κ → Prop} {Q : List κ → σ → Prop}

/-- At a good key the body keeps the invariant and the keys. -/
def Keeps (view : σ → SortedMap κ ν) (body : κ → σ → Except ε σ) (keys : List κ)
    (good : σ → κ → Prop) (Q : List κ → σ → Prop) : Prop :=
  ∀ before key after s, keys = before ++ key :: after → good s key → Q before s →
    (view s).keys = keys →
      ∃ t, body key s = .ok t ∧ Q (before ++ [key]) t ∧ (view t).keys = keys

/-- At any other key the body fails or erases the entry. -/
def Breaks (view : σ → SortedMap κ ν) (body : κ → σ → Except ε σ) (keys : List κ)
    (good : σ → κ → Prop) (Q : List κ → σ → Prop) : Prop :=
  ∀ before key after s t, keys = before ++ key :: after → ¬ good s key → Q before s →
    (view s).keys = keys → body key s = .ok t → key ∉ (view t).keys

/-- A body that keeps the keys leads to the entry that follows. -/
theorem loopFrom_next {rounds : Nat} {before after : List κ} {key : κ} {s t : σ}
    (ran : body key s = .ok t) (keysAfter : (view t).keys = before ++ key :: after) :
    loopFrom view body (rounds + 1) key s =
      match after.head? with
      | none => .ok t
      | some next => loopFrom view body rounds next t := by
  have here : (view t).contains key = true := by
    rw [contains_iff, keysAfter]
    simp
  rw [loopFrom, ran]
  dsimp only
  rw [if_pos here, nextKey?_eq keysAfter]

theorem loopFrom_invariant (keeps : Keeps view body keys good Q) {rounds : Nat}
    (before : List κ) {after : List κ} {key : κ} {s : σ} (split : keys = before ++ key :: after)
    (enough : after.length ≤ rounds) (meets : StepsMeet (round body) good s (key :: after))
    (invariant : Q before s) (same : (view s).keys = keys) :
    ∃ t, loopFrom view body (rounds + 1) key s = .ok t ∧ Q keys t ∧ (view t).keys = keys := by
  induction after generalizing before key s rounds with
  | nil =>
      obtain ⟨t, ran, done, sameAfter⟩ := keeps before key [] s split meets.head invariant same
      exact ⟨t, loopFrom_next ran (sameAfter.trans split), split ▸ done, sameAfter⟩
  | cons next after ih =>
      obtain ⟨rounds, rfl⟩ := Nat.exists_eq_add_of_le' (Nat.one_le_of_lt enough)
      obtain ⟨t, ran, later, sameAfter⟩ :=
        keeps before key (next :: after) s split meets.head invariant same
      obtain ⟨u, rest, done⟩ := ih (before ++ [key])
        (by rw [split, List.append_assoc, List.singleton_append])
        (Nat.le_of_succ_le_succ enough) ((stepsMeet_cons (round_eq ran)).mp meets).2 later sameAfter
      refine ⟨u, ?_, done⟩
      rw [loopFrom_next ran (sameAfter.trans split)]
      exact rest

/-- A loop that ends regularly is not at a bad entry. -/
theorem good_of_loopFrom (breaks : Breaks view body keys good Q) {rounds : Nat}
    {before after : List κ} {key : κ} {s t : σ} (split : keys = before ++ key :: after)
    (invariant : Q before s) (same : (view s).keys = keys)
    (ended : loopFrom view body rounds key s = .ok t) :
    good s key ∧ ∃ fewer, rounds = fewer + 1 := by
  cases rounds with
  | zero => cases ended
  | succ rounds =>
      refine ⟨?_, rounds, rfl⟩
      by_contra bad
      rw [loopFrom] at ended
      cases ran : body key s with
      | error error =>
          rw [ran] at ended
          cases ended
      | ok u =>
          have gone : ¬ (view u).contains key = true := by
            rw [contains_iff]
            exact breaks before key after s u split bad invariant same ran
          rw [ran] at ended
          dsimp only at ended
          rw [if_neg gone] at ended
          cases ended

theorem stepsMeet_of_loopFrom (keeps : Keeps view body keys good Q)
    (breaks : Breaks view body keys good Q) {rounds : Nat} (before : List κ) {after : List κ}
    {key : κ} {s t : σ} (split : keys = before ++ key :: after) (invariant : Q before s)
    (same : (view s).keys = keys) (ended : loopFrom view body rounds key s = .ok t) :
    StepsMeet (round body) good s (key :: after) := by
  induction after generalizing before key s rounds with
  | nil =>
      obtain ⟨here, -⟩ := good_of_loopFrom breaks split invariant same ended
      obtain ⟨u, ran, -⟩ := keeps before key [] s split here invariant same
      exact (stepsMeet_cons (round_eq ran)).mpr ⟨here, stepsMeet_nil good u⟩
  | cons next after ih =>
      obtain ⟨here, rounds, rfl⟩ := good_of_loopFrom breaks split invariant same ended
      obtain ⟨u, ran, later, sameAfter⟩ :=
        keeps before key (next :: after) s split here invariant same
      rw [loopFrom_next ran (sameAfter.trans split)] at ended
      refine (stepsMeet_cons (round_eq ran)).mpr ⟨here, ?_⟩
      exact ih (before ++ [key])
        (by rw [split, List.append_assoc, List.singleton_append]) later sameAfter ended

variable {s : σ}

/-- **The invariant rule.** A loop that meets only good entries visits all of
them, in order. -/
theorem rangeFor_invariant (keeps : Keeps view body (view s).keys good Q)
    (meets : StepsMeet (round body) good s (view s).keys) (start : Q [] s) :
    ∃ t, rangeFor view body s = .ok t ∧ Q (view s).keys t ∧ (view t).keys = (view s).keys := by
  rw [rangeFor, firstKey?]
  cases keys : (view s).keys with
  | nil => exact ⟨s, rfl, start, keys⟩
  | cons key after =>
      rw [keys] at keeps meets
      exact loopFrom_invariant keeps [] rfl le_rfl meets start keys

/-- **When a loop ends regularly.** -/
theorem rangeFor_ok_iff (keeps : Keeps view body (view s).keys good Q)
    (breaks : Breaks view body (view s).keys good Q) (start : Q [] s) :
    (∃ t, rangeFor view body s = .ok t) ↔ StepsMeet (round body) good s (view s).keys := by
  constructor
  · rintro ⟨t, ended⟩
    rw [rangeFor, firstKey?] at ended
    cases keys : (view s).keys with
    | nil => exact stepsMeet_nil good s
    | cons key after =>
        rw [keys] at keeps breaks ended
        exact stepsMeet_of_loopFrom keeps breaks [] rfl start keys ended
  · intro meets
    obtain ⟨t, ended, -⟩ := rangeFor_invariant keeps meets start
    exact ⟨t, ended⟩

/-- What is good in every state must be so of every entry. -/
theorem stepsMeet_forall_iff {fair : κ → Prop}
    (keeps : Keeps view body keys (fun _ => fair) Q) (before : List κ) {after : List κ}
    (split : keys = before ++ after) (invariant : Q before s) (same : (view s).keys = keys) :
    StepsMeet (round body) (fun _ => fair) s after ↔ ∀ key ∈ after, fair key := by
  refine ⟨fun meets => ?_, fun all => stepsMeet_of_forall (fun key member _ => all key member) s⟩
  induction after generalizing before s with
  | nil => exact fun _ member => absurd member List.not_mem_nil
  | cons key after ih =>
      obtain ⟨t, ran, later, sameAfter⟩ :=
        keeps before key after s split meets.head invariant same
      refine List.forall_mem_cons.mpr ⟨meets.head, ?_⟩
      exact ih (before ++ [key]) (by rw [split, List.append_assoc, List.singleton_append]) later
        sameAfter ((stepsMeet_cons (round_eq ran)).mp meets).2

end Rule

end SortedMap
