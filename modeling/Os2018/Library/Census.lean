import Mathlib.Algebra.BigOperators.Group.Finset.Basic
import Mathlib.Algebra.Order.BigOperators.Group.Finset
import Mathlib.Data.Fintype.BigOperators

/-!
# Counting over the components of a system

Finitely many components each stand at some point, and a point carries a weight:
a number of permits, a multiset of items. The census adds the weights up. A step
that moves one component splits the census into the weight of that component and
the weight of the others, which the step leaves alone (`total_eq`,
`total_update`). What components with different names hold of a ledger adds up to
the entries that name them (`sum_shares`).
-/

set_option autoImplicit false

namespace Census

universe u v w

variable {ι : Type u} {Point : Type v} {M : Type w}

section Total

variable [Fintype ι] [AddCommMonoid M]

/-- The weight of all components. -/
def total (weight : Point → M) (component : ι → Point) : M :=
  ∑ i, weight (component i)

theorem total_const (weight : Point → M) (point : Point) :
    total weight (fun _ : ι => point) = Fintype.card ι • weight point := by
  simp [total]

theorem total_eq_zero {weight : Point → M} {component : ι → Point}
    (none : ∀ j, weight (component j) = 0) : total weight component = 0 :=
  Finset.sum_eq_zero fun j _ => none j

theorem total_congr {weight : Point → M} {component component' : ι → Point}
    (same : ∀ j, weight (component j) = weight (component' j)) :
    total weight component = total weight component' :=
  Finset.sum_congr rfl fun j _ => same j

variable [DecidableEq ι]

/-- The weight of the components other than the given one. -/
def others (weight : Point → M) (component : ι → Point) (i : ι) : M :=
  ∑ j ∈ Finset.univ.erase i, weight (component j)

variable (weight : Point → M) (component : ι → Point) (i : ι)

theorem total_eq : total weight component = weight (component i) + others weight component i :=
  (Finset.add_sum_erase _ _ (Finset.mem_univ i)).symm

theorem others_update (point : Point) :
    others weight (Function.update component i point) i = others weight component i := by
  apply Finset.sum_congr rfl
  intro j member
  rw [Function.update_of_ne (Finset.ne_of_mem_erase member)]

/-- Moving one component changes its own weight only. -/
theorem total_update (point : Point) :
    total weight (Function.update component i point) =
      weight point + others weight component i := by
  rw [total_eq weight _ i, others_update, Function.update_self]

end Total

section Numbers

variable [Fintype ι]

theorem others_le [DecidableEq ι] {weight : Point → Nat} {component component' : ι → Point}
    (lighter : ∀ j, weight (component j) ≤ weight (component' j)) (i : ι) :
    others weight component i ≤ others weight component' i :=
  Finset.sum_le_sum fun j _ => lighter j

/-- When no component weighs more than one, the census is the number of
components only if each weighs one. -/
theorem total_lt_card {weight : Point → Nat} {component : ι → Point}
    (atMost : ∀ j, weight (component j) ≤ 1) {i : ι} (light : weight (component i) = 0) :
    total weight component < Fintype.card ι := by
  calc total weight component < ∑ _j : ι, 1 :=
        Finset.sum_lt_sum (fun j _ => atMost j) ⟨i, Finset.mem_univ i, by rw [light]; exact one_pos⟩
    _ = Fintype.card ι := by simp

/-- When the census is one less than the number of components and one component
weighs nothing, every other weighs one. -/
theorem weight_eq_one_of_card_le [DecidableEq ι] {weight : Point → Nat} {component : ι → Point}
    (atMost : ∀ j, weight (component j) ≤ 1) {i : ι} (light : weight (component i) = 0)
    (full : Fintype.card ι ≤ total weight component + 1) {j : ι} (other : j ≠ i) :
    weight (component j) = 1 := by
  by_contra notOne
  have lighter : weight (component j) < 1 := lt_of_le_of_ne (atMost j) notOne
  have few : others weight component i < Fintype.card ι - 1 := by
    calc others weight component i < ∑ _j ∈ Finset.univ.erase i, 1 :=
          Finset.sum_lt_sum (fun k _ => atMost k)
            ⟨j, Finset.mem_erase.mpr ⟨other, Finset.mem_univ j⟩, lighter⟩
      _ = Fintype.card ι - 1 := by simp
  rw [total_eq weight component i, light] at full
  omega

/-- Where only one point weighs anything, every other component stands there. -/
theorem eq_of_card_le [DecidableEq ι] {weight : Point → Nat} {component : ι → Point}
    {heavy : Point} (atMost : ∀ point, weight point ≤ 1)
    (only : ∀ point, weight point = 1 → point = heavy) {i : ι} (light : weight (component i) = 0)
    (full : Fintype.card ι ≤ total weight component + 1) {j : ι} (other : j ≠ i) :
    component j = heavy :=
  only (component j) (weight_eq_one_of_card_le (fun k => atMost (component k)) light full other)

end Numbers

section Ledger

variable {κ : Type v} [DecidableEq κ]

open Classical in
/-- **The shares of a ledger.** Each entry of the ledger names a holder. The
shares of components with different names add up to the entries that name one of
them. -/
theorem sum_shares {name : ι → Option κ}
    (distinct : ∀ i j a, name i = some a → name j = some a → i = j) (components : Finset ι)
    (ledger : List κ) :
    ∑ i ∈ components, (name i).elim 0 ledger.count =
      ledger.countP fun a => ∃ i ∈ components, name i = some a := by
  induction ledger with
  | nil =>
      rw [List.countP_nil]
      apply Finset.sum_eq_zero
      intro i _
      cases name i <;> rfl
  | cons a ledger ih =>
      have share : ∀ i, (name i).elim 0 (a :: ledger).count =
          (name i).elim 0 ledger.count + if name i = some a then 1 else 0 := by
        intro i
        cases name i with
        | none => rfl
        | some b =>
            simp only [Option.elim_some, List.count_cons, beq_iff_eq, Option.some.injEq,
              eq_comm (a := a)]
      rw [Finset.sum_congr rfl fun i _ => share i, Finset.sum_add_distrib, ih, List.countP_cons,
        ← Finset.card_filter]
      congr 1
      by_cases named : ∃ i ∈ components, name i = some a
      · obtain ⟨i, member, isName⟩ := named
        rw [if_pos (decide_eq_true ⟨i, member, isName⟩), Finset.card_eq_one]
        refine ⟨i, Finset.ext fun j => ?_⟩
        rw [Finset.mem_filter, Finset.mem_singleton]
        constructor
        · rintro ⟨-, isName'⟩
          exact distinct j i a isName' isName
        · rintro rfl
          exact ⟨member, isName⟩
      · rw [if_neg (by simpa using named), Finset.card_eq_zero, Finset.filter_eq_empty_iff]
        exact fun i member isName => named ⟨i, member, isName⟩

end Ledger

end Census
