import Os2018.Library.WeakOrder
import Mathlib.Data.Multiset.MapFold

/-!
# Groups that are equivalence classes

The elements of a list fall into classes of equivalent elements. Groups are the
classes of the list when every group is, as a multiset, all the elements of one
class, no two groups belong to the same class, and every element is in a group
(`Classes`).

Groups that hold the elements of the list between them are its classes exactly
if each is made of equivalent elements and no two share a class
(`classes_iff`). A list has one multiset of classes, whatever the order of its
elements (`Classes.unique`), and a function that respects the order takes classes
to classes (`Classes.map`). The classes can be computed by taking out one after
another (`classesOf`).
-/

set_option autoImplicit false

namespace WeakOrder

open scoped List

universe u v

variable {α : Type u} {β : Type v}

/-- No element of one is equivalent to an element of the other. -/
def Separate (lt : α → α → Bool) (first second : List α) : Prop :=
  ∀ a ∈ first, ∀ b ∈ second, equivalent lt a b = false

/-- Some elements, all equivalent. -/
def Uniform (lt : α → α → Bool) (group : List α) : Prop :=
  group ≠ [] ∧ ∀ a ∈ group, ∀ b ∈ group, equivalent lt a b = true

/-- The groups are the classes of the elements. -/
structure Classes (lt : α → α → Bool) (elements : List α) (groups : List (List α)) : Prop where
  whole : ∀ group ∈ groups, ∃ r ∈ elements,
    group ~ elements.filter fun a => equivalent lt a r
  once : groups.Pairwise (Separate lt)
  all : ∀ a ∈ elements, ∃ group ∈ groups, a ∈ group

section Separate

variable {lt : α → α → Bool} {first second third : List α}

theorem Separate.symm (separate : Separate lt first second) : Separate lt second first :=
  fun a member b other => equivalent_comm.trans (separate b other a member)

theorem Separate.mono {part : List α} (separate : Separate lt first second)
    (subset : part ⊆ second) : Separate lt first part :=
  fun a member b other => separate a member b (subset other)

theorem separate_append_right :
    Separate lt first (second ++ third) ↔ Separate lt first second ∧ Separate lt first third := by
  constructor
  · exact fun separate => ⟨separate.mono (List.subset_append_left ..),
      separate.mono (List.subset_append_right ..)⟩
  · rintro ⟨left, right⟩ a member b other
    rcases List.mem_append.mp other with other | other
    · exact left a member b other
    · exact right a member b other

theorem separate_flatten {groups : List (List α)}
    (separate : ∀ group ∈ groups, Separate lt group second) :
    Separate lt groups.flatten second := by
  intro a member b other
  obtain ⟨group, groupMember, inside⟩ := List.mem_flatten.mp member
  exact separate group groupMember a inside b other

/-- Splitting the last group in two. -/
theorem pairwise_separate_split {groups : List (List α)} (perm : first ++ second ~ third) :
    (groups ++ [first] ++ [second]).Pairwise (Separate lt) ↔
      (groups ++ [third]).Pairwise (Separate lt) ∧ Separate lt first second := by
  have parts : ∀ group, Separate lt group third ↔
      Separate lt group first ∧ Separate lt group second := by
    intro group
    rw [← separate_append_right]
    exact ⟨fun whole => whole.mono perm.subset, fun whole => whole.mono perm.symm.subset⟩
  simp only [List.append_assoc, List.pairwise_append, List.pairwise_cons, List.not_mem_nil,
    false_imp_iff, implies_true, List.Pairwise.nil, and_true, true_and, forall_eq, parts,
    List.cons_append, List.nil_append, List.mem_cons, or_false, forall_eq_or_imp]
  tauto

theorem filter_eq_nil_of_separate {r : α} (separate : Separate lt first second)
    (member : r ∈ second) : first.filter (fun a => equivalent lt a r) = [] :=
  List.filter_eq_nil_iff.mpr fun a other =>
    Bool.eq_false_iff.mp (separate a other r member)

end Separate

section Classes

variable {lt : α → α → Bool} {elements elements' : List α} {groups groups' : List (List α)}

theorem Classes.perm (classes : Classes lt elements groups) (perm : elements ~ elements') :
    Classes lt elements' groups where
  whole := by
    intro group member
    obtain ⟨r, old, whole⟩ := classes.whole group member
    exact ⟨r, perm.mem_iff.mp old, whole.trans (perm.filter _)⟩
  once := classes.once
  all := fun a member => classes.all a (perm.mem_iff.mpr member)

/-- A function that respects the order takes classes to classes. -/
theorem Classes.map (classes : Classes lt elements groups) (lt' : β → β → Bool) (f : α → β)
    (respects : ∀ a b, lt' (f a) (f b) = lt a b) :
    Classes lt' (elements.map f) (groups.map (List.map f)) where
  whole := by
    intro group member
    obtain ⟨old, oldMember, rfl⟩ := List.mem_map.mp member
    obtain ⟨r, rMember, whole⟩ := classes.whole old oldMember
    refine ⟨f r, List.mem_map_of_mem rMember, ?_⟩
    rw [List.filter_map]
    simpa only [Function.comp_def, equivalent, respects] using whole.map f
  once := by
    apply classes.once.map _
    intro first second separate a member b other
    obtain ⟨a, inside, rfl⟩ := List.mem_map.mp member
    obtain ⟨b, inside', rfl⟩ := List.mem_map.mp other
    simpa only [equivalent, respects] using separate a inside b inside'
  all := by
    intro b member
    obtain ⟨a, old, rfl⟩ := List.mem_map.mp member
    obtain ⟨group, groupMember, inside⟩ := classes.all a old
    exact ⟨group.map f, List.mem_map_of_mem groupMember, List.mem_map_of_mem inside⟩

/-- Groups that do not share a class, each of one class: each is the whole class
within their concatenation. -/
theorem filter_flatten (uniform : ∀ group ∈ groups, Uniform lt group)
    (once : groups.Pairwise (Separate lt)) {group : List α} (member : group ∈ groups) {r : α}
    (inside : r ∈ group) : groups.flatten.filter (fun a => equivalent lt a r) = group := by
  obtain ⟨before, after, rfl⟩ := List.append_of_mem member
  have own : group.filter (fun a => equivalent lt a r) = group :=
    List.filter_eq_self.mpr fun a other => (uniform group member).2 a other r inside
  obtain ⟨-, later, across⟩ := List.pairwise_append.mp once
  have left : before.flatten.filter (fun a => equivalent lt a r) = [] := by
    refine filter_eq_nil_of_separate (separate_flatten fun first firstMember => ?_) inside
    exact across first firstMember group List.mem_cons_self
  have right : after.flatten.filter (fun a => equivalent lt a r) = [] := by
    refine filter_eq_nil_of_separate (separate_flatten fun third thirdMember => ?_) inside
    exact ((List.pairwise_cons.mp later).1 third thirdMember).symm
  rw [List.flatten_append, List.flatten_cons, List.filter_append, List.filter_append, left, own,
    right, List.nil_append, List.append_nil]

variable (lawful : Lawful lt)
include lawful

/-- Membership in a class is membership in that of any equivalent element. -/
theorem Lawful.filter_congr {r r' : α} (same : equivalent lt r r' = true) :
    elements.filter (fun a => equivalent lt a r) = elements.filter fun a => equivalent lt a r' := by
  refine List.filter_congr fun a _ => Bool.eq_iff_iff.mpr ⟨fun old => ?_, fun old => ?_⟩
  · exact lawful.equivalent_trans old same
  · exact lawful.equivalent_trans old (equivalent_comm.trans same)

/-- A class is not empty. -/
theorem Classes.uniform (classes : Classes lt elements groups) :
    ∀ group ∈ groups, Uniform lt group := by
  intro group member
  obtain ⟨r, old, whole⟩ := classes.whole group member
  have inside : ∀ a ∈ group, equivalent lt a r = true :=
    fun a other => (List.mem_filter.mp (whole.mem_iff.mp other)).2
  refine ⟨?_, fun a other b same => ?_⟩
  · rintro rfl
    have own : r ∈ elements.filter fun a => equivalent lt a r :=
      List.mem_filter.mpr ⟨old, lawful.equivalent_self r⟩
    exact absurd (whole.mem_iff.mpr own) List.not_mem_nil
  · exact lawful.equivalent_trans (inside a other) (equivalent_comm.trans (inside b same))

/-- Without the elements of the first class, the other groups are the classes. -/
theorem Classes.tail {group : List α} {r : α} (classes : Classes lt elements (group :: groups))
    (own : r ∈ group) (whole : group ~ elements.filter fun a => equivalent lt a r) :
    Classes lt (elements.filter fun a => !equivalent lt a r) groups := by
  obtain ⟨apart, once⟩ := List.pairwise_cons.mp classes.once
  refine ⟨fun other member => ?_, once, fun a member => ?_⟩
  · obtain ⟨r', old', whole'⟩ := classes.whole other (List.mem_cons_of_mem _ member)
    have own' : r' ∈ other :=
      whole'.mem_iff.mpr (List.mem_filter.mpr ⟨old', lawful.equivalent_self r'⟩)
    have different : equivalent lt r r' = false := apart other member r own r' own'
    refine ⟨r', List.mem_filter.mpr ⟨old', ?_⟩, whole'.trans (List.Perm.of_eq ?_)⟩
    · rw [equivalent_comm, different]
      rfl
    · rw [List.filter_filter]
      apply List.filter_congr
      intro a _
      cases same : equivalent lt a r' with
      | false => rfl
      | true =>
          cases both : equivalent lt a r with
          | false => rfl
          | true =>
              have joined := lawful.equivalent_trans (equivalent_comm.trans both) same
              cases different.symm.trans joined
  · obtain ⟨inElements, outside⟩ := List.mem_filter.mp member
    obtain ⟨other, otherMember, inside⟩ := classes.all a inElements
    rcases List.mem_cons.mp otherMember with rfl | later
    · rw [(List.mem_filter.mp (whole.mem_iff.mp inside)).2] at outside
      cases outside
    · exact ⟨other, later, inside⟩

/-- The classes hold the elements between them. -/
theorem Classes.flatten_perm (classes : Classes lt elements groups) :
    groups.flatten ~ elements := by
  induction groups generalizing elements with
  | nil =>
      cases elements with
      | nil => exact .nil
      | cons a elements =>
          obtain ⟨group, member, -⟩ := classes.all a List.mem_cons_self
          exact absurd member List.not_mem_nil
  | cons group groups ih =>
      obtain ⟨r, old, whole⟩ := classes.whole group List.mem_cons_self
      have own : r ∈ group :=
        whole.mem_iff.mpr (List.mem_filter.mpr ⟨old, lawful.equivalent_self r⟩)
      calc (group :: groups).flatten
        _ = group ++ groups.flatten := List.flatten_cons
        _ ~ elements.filter (fun a => equivalent lt a r) ++
              elements.filter (fun a => !equivalent lt a r) :=
            whole.append (ih (classes.tail lawful own whole))
        _ ~ elements := List.filter_append_perm _ _

/-- **Groups that hold the elements between them are the classes exactly if each
is uniform and no two share a class.** -/
theorem classes_iff : Classes lt elements groups ↔
    groups.flatten ~ elements ∧ (∀ group ∈ groups, Uniform lt group) ∧
      groups.Pairwise (Separate lt) := by
  constructor
  · exact fun classes =>
      ⟨classes.flatten_perm lawful, classes.uniform lawful, classes.once⟩
  · rintro ⟨perm, uniform, once⟩
    have classes : Classes lt groups.flatten groups := by
      refine ⟨fun group member => ?_, once, fun a member => ?_⟩
      · obtain ⟨r, inside⟩ := List.exists_mem_of_ne_nil group (uniform group member).1
        refine ⟨r, List.mem_flatten.mpr ⟨group, member, inside⟩, ?_⟩
        exact List.Perm.of_eq (filter_flatten uniform once member inside).symm
      · exact List.mem_flatten.mp member
    exact classes.perm perm

theorem Classes.nodup (classes : Classes lt elements groups) :
    (groups.map Multiset.ofList).Nodup := by
  refine List.pairwise_map.mpr (classes.once.imp_of_mem ?_)
  intro first second member _ separate same
  obtain ⟨a, inside⟩ := List.exists_mem_of_ne_nil first (classes.uniform lawful first member).1
  have other : a ∈ second := (Multiset.coe_eq_coe.mp same).mem_iff.mp inside
  cases (separate a inside a other).symm.trans (lawful.equivalent_self a)

theorem Classes.subset (classes : Classes lt elements groups)
    (classes' : Classes lt elements' groups') (perm : elements ~ elements') :
    groups.map Multiset.ofList ⊆ groups'.map Multiset.ofList := by
  intro m member
  obtain ⟨group, groupMember, rfl⟩ := List.mem_map.mp member
  obtain ⟨r, old, whole⟩ := classes.whole group groupMember
  obtain ⟨group', member', inside⟩ := classes'.all r (perm.mem_iff.mp old)
  obtain ⟨r', -, whole'⟩ := classes'.whole group' member'
  have same : equivalent lt r r' = true := (List.mem_filter.mp (whole'.mem_iff.mp inside)).2
  refine List.mem_map.mpr ⟨group', member', Multiset.coe_eq_coe.mpr ?_⟩
  calc group'
    _ ~ elements'.filter (fun a => equivalent lt a r') := whole'
    _ = elements'.filter (fun a => equivalent lt a r) := (lawful.filter_congr same).symm
    _ ~ elements.filter (fun a => equivalent lt a r) := (perm.filter _).symm
    _ ~ group := whole.symm

/-- A list has its classes in any order, and each in any order. -/
theorem Classes.unique (classes : Classes lt elements groups)
    (classes' : Classes lt elements' groups') (perm : elements ~ elements') :
    groups.map Multiset.ofList ~ groups'.map Multiset.ofList :=
  (List.perm_ext_iff_of_nodup (classes.nodup lawful) (classes'.nodup lawful)).mpr fun _ =>
    ⟨fun member => classes.subset lawful classes' perm member,
      fun member => classes'.subset lawful classes perm.symm member⟩

/-! ## Computing the classes -/

/-- The classes in the order of their first elements. -/
def classesOf (lt : α → α → Bool) : List α → List (List α)
  | [] => []
  | a :: elements =>
      (a :: elements.filter fun b => equivalent lt b a) ::
        (classesOf lt elements).filter fun group => group.all fun b => !equivalent lt b a

theorem classesOf_classes (elements : List α) : Classes lt elements (classesOf lt elements) := by
  induction elements with
  | nil => exact ⟨nofun, .nil, nofun⟩
  | cons a elements ih =>
      rw [classesOf]
      have same : ∀ b ∈ a :: elements.filter (fun b => equivalent lt b a),
          equivalent lt b a = true :=
        List.forall_mem_cons.mpr ⟨lawful.equivalent_self a,
          fun b member => (List.mem_filter.mp member).2⟩
      have different : ∀ group ∈ (classesOf lt elements).filter
          (fun group => group.all fun b => !equivalent lt b a),
            group ∈ classesOf lt elements ∧ ∀ b ∈ group, equivalent lt b a = false := by
        intro group member
        obtain ⟨old, none⟩ := List.mem_filter.mp member
        exact ⟨old, fun b inside => by simpa using List.all_eq_true.mp none b inside⟩
      refine ⟨List.forall_mem_cons.mpr ⟨⟨a, List.mem_cons_self, ?_⟩, ?_⟩,
        List.pairwise_cons.mpr ⟨?_, ih.once.filter _⟩, List.forall_mem_cons.mpr ⟨?_, ?_⟩⟩
      · rw [List.filter_cons, if_pos (lawful.equivalent_self a)]
      · intro group member
        obtain ⟨old, none⟩ := different group member
        obtain ⟨r, inElements, whole⟩ := ih.whole group old
        have own : r ∈ group :=
          whole.mem_iff.mpr (List.mem_filter.mpr ⟨inElements, lawful.equivalent_self r⟩)
        refine ⟨r, List.mem_cons_of_mem _ inElements, ?_⟩
        rwa [List.filter_cons_of_neg]
        rw [equivalent_comm, none r own]
        exact Bool.false_ne_true
      · intro group member b inside c other
        by_contra both
        rw [Bool.not_eq_false] at both
        cases ((different group member).2 c other).symm.trans
          (lawful.equivalent_trans (equivalent_comm.trans both) (same b inside))
      · exact ⟨_, List.mem_cons_self, List.mem_cons_self⟩
      · intro b inElements
        by_cases inFirst : equivalent lt b a = true
        · exact ⟨_, List.mem_cons_self,
            List.mem_cons_of_mem _ (List.mem_filter.mpr ⟨inElements, inFirst⟩)⟩
        · obtain ⟨group, old, inside⟩ := ih.all b inElements
          refine ⟨group, List.mem_cons_of_mem _ (List.mem_filter.mpr ⟨old, ?_⟩), inside⟩
          refine List.all_eq_true.mpr fun c other => ?_
          by_contra both
          have both : equivalent lt c a = true := by simpa using both
          exact inFirst (lawful.equivalent_trans ((ih.uniform lawful group old).2 b inside c other)
            both)

end Classes

/-- Lists with the same images, and functions that agree up to order where the
images are the same. -/
theorem flatMap_perm_of_map_perm {γ δ : Type*} {f : α → γ} {f' : β → γ} {h : α → List δ}
    {h' : β → List δ} {first : List α} {second : List β} (perm : first.map f ~ second.map f')
    (same : ∀ a ∈ first, ∀ b ∈ second, f a = f' b → h a ~ h' b) :
    first.flatMap h ~ second.flatMap h' := by
  induction first generalizing second with
  | nil =>
      rw [List.map_nil, List.nil_perm, List.map_eq_nil_iff] at perm
      rw [perm]
      exact .nil
  | cons a first ih =>
      have member : f a ∈ second.map f' := perm.mem_iff.mp List.mem_cons_self
      obtain ⟨b, inSecond, image⟩ := List.mem_map.mp member
      obtain ⟨before, after, rfl⟩ := List.append_of_mem inSecond
      rw [List.map_append, List.map_cons, List.map_cons, image] at perm
      have rest : first.map f ~ (before ++ after).map f' := by
        rw [List.map_append]
        exact (perm.trans List.perm_middle).cons_inv
      have later : first.flatMap h ~ (before ++ after).flatMap h' := by
        refine ih rest fun c cMember d dMember => same c (List.mem_cons_of_mem _ cMember) d ?_
        rw [List.mem_append] at dMember ⊢
        exact dMember.imp_right (List.mem_cons_of_mem _)
      rw [List.flatMap_append] at later
      rw [List.flatMap_cons, List.flatMap_append, List.flatMap_cons]
      calc h a ++ first.flatMap h
        _ ~ h' b ++ (before.flatMap h' ++ after.flatMap h') :=
            (same a List.mem_cons_self b inSecond image.symm).append later
        _ ~ before.flatMap h' ++ (h' b ++ after.flatMap h') := List.perm_append_comm_assoc ..

end WeakOrder
