import Mathlib.Order.RelClasses
import Mathlib.Data.List.Sort

/-!
# Strict weak orders given by a comparison

A comparison decides whether its first argument comes before its second. When it
is a strict weak order, two elements neither of which comes before the other are
equivalent (`equivalent`), and this is an equivalence relation.

A list is sorted when no later element comes before an earlier one. The result
of sorting a list is any sorted permutation of it (`IsSort`): an unstable
algorithm may leave equivalent elements in any order. Such a result always
exists (`exists_isSort`).
-/

set_option autoImplicit false

namespace WeakOrder

universe u v

variable {α : Type u} {β : Type v}

/-- The comparison is a strict weak order. -/
abbrev Lawful (lt : α → α → Bool) : Prop :=
  IsStrictWeakOrder α fun a b => lt a b = true

/-- Neither comes before the other. -/
def equivalent (lt : α → α → Bool) (a b : α) : Bool := !lt a b && !lt b a

def Sorted (lt : α → α → Bool) (list : List α) : Prop :=
  list.Pairwise fun earlier later => lt later earlier = false

/-- A result of sorting the list. -/
def IsSort (lt : α → α → Bool) (list result : List α) : Prop :=
  result.Perm list ∧ Sorted lt result

instance [DecidableEq α] (lt : α → α → Bool) (list result : List α) :
    Decidable (IsSort lt list result) :=
  inferInstanceAs (Decidable (result.Perm list ∧
    result.Pairwise fun earlier later => lt later earlier = false))

/-- Comparing images under a function. -/
theorem Lawful.comap {lt : β → β → Bool} (lawful : Lawful lt) (f : α → β) :
    Lawful fun a b => lt (f a) (f b) where
  irrefl a := lawful.irrefl (f a)
  trans _ _ _ := lawful.trans _ _ _
  incomp_trans _ _ _ := lawful.incomp_trans _ _ _

section Order

variable {lt : α → α → Bool} {a b c : α}

theorem equivalent_iff : equivalent lt a b = true ↔ lt a b = false ∧ lt b a = false := by
  simp [equivalent]

theorem equivalent_comm : equivalent lt a b = equivalent lt b a :=
  Bool.and_comm ..

variable (lawful : Lawful lt)
include lawful

theorem Lawful.lt_self (a : α) : lt a a = false :=
  Bool.eq_false_iff.mpr (lawful.irrefl a)

theorem Lawful.equivalent_self (a : α) : equivalent lt a a = true :=
  equivalent_iff.mpr ⟨lawful.lt_self a, lawful.lt_self a⟩

theorem Lawful.equivalent_trans (first : equivalent lt a b = true)
    (second : equivalent lt b c = true) : equivalent lt a c = true := by
  simp only [equivalent_iff, ← Bool.not_eq_true] at first second ⊢
  exact lawful.incomp_trans a b c first second

/-- What comes before neither comes before nothing in between. -/
theorem Lawful.not_lt_trans (first : lt a b = false) (second : lt b c = false) :
    lt a c = false := by
  by_contra before
  rw [Bool.not_eq_false] at before
  have left : lt b a = false := by
    apply Bool.eq_false_iff.mpr
    intro less
    cases second.symm.trans (lawful.trans b a c less before)
  have right : lt c b = false := by
    apply Bool.eq_false_iff.mpr
    intro less
    cases first.symm.trans (lawful.trans a c b before less)
  have same := lawful.equivalent_trans (equivalent_iff.mpr ⟨first, left⟩)
    (equivalent_iff.mpr ⟨second, right⟩)
  cases before.symm.trans (equivalent_iff.mp same).1

theorem Lawful.lt_of_lt_of_not_lt (first : lt a b = true) (second : lt c b = false) :
    lt a c = true := by
  by_contra notBefore
  rw [Bool.not_eq_true] at notBefore
  cases first.symm.trans (lawful.not_lt_trans notBefore second)

/-- Sorting is possible. -/
theorem Lawful.exists_isSort (list : List α) : ∃ result, IsSort lt list result := by
  have transitive : ∀ a b c, (!lt b a) = true → (!lt c b) = true → (!lt c a) = true := by
    intro a b c first second
    rw [Bool.not_eq_true'] at first second ⊢
    exact lawful.not_lt_trans second first
  have total : ∀ a b, (!lt b a || !lt a b) = true := by
    intro a b
    cases less : lt b a with
    | false => rfl
    | true =>
        have other : lt a b = false := by
          apply Bool.eq_false_iff.mpr
          intro more
          cases (lawful.lt_self b).symm.trans (lawful.trans b a b less more)
        rw [other]
        rfl
  have sorted := List.pairwise_mergeSort transitive total list
  exact ⟨_, List.mergeSort_perm _ _, by simpa [Sorted] using sorted⟩

end Order

end WeakOrder
