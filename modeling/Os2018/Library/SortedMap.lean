import Mathlib.Data.List.Sort
import Mathlib.Order.Basic

/-!
# Maps kept in key order

An ordered map is the list of its entries in strictly increasing key order;
the order is a field, so a map with two entries for one key cannot be built.
Iterating over the map visits `entries` from left to right.

A lookup after an update is the lookup before it, except at the key that was
updated (`find?_insert`, `find?_erase`). A map can also be rewritten entry by
entry, dropping the entries whose new value is absent (`find?_filterMap`). An
ordered set is a map to `Unit`.
-/

set_option autoImplicit false

/-- A map as its entries in strictly increasing key order. -/
structure SortedMap (κ ν : Type*) [LinearOrder κ] where
  entries : List (κ × ν)
  sorted : entries.Pairwise (fun first second => first.1 < second.1)

namespace SortedMap

variable {κ ν : Type*} [LinearOrder κ]

def empty : SortedMap κ ν := ⟨[], .nil⟩

def keys (map : SortedMap κ ν) : List κ := map.entries.map Prod.fst

/-- The value stored under a key. -/
def find? (map : SortedMap κ ν) (key : κ) : Option ν :=
  (map.entries.find? fun entry => entry.1 = key).map Prod.snd

def contains (map : SortedMap κ ν) (key : κ) : Bool := (map.find? key).isSome

theorem keys_sorted (map : SortedMap κ ν) : map.keys.Pairwise (· < ·) :=
  List.pairwise_map.mpr map.sorted

theorem keys_nodup (map : SortedMap κ ν) : map.keys.Nodup :=
  map.keys_sorted.imp fun less => ne_of_lt less

/-! ## Lookups and entries -/

/-- Looking a key up finds the entry of that key. -/
theorem find?_eq_some {map : SortedMap κ ν} {key : κ} {value : ν} :
    map.find? key = some value ↔ (key, value) ∈ map.entries := by
  obtain ⟨entries, sorted⟩ := map
  simp only [find?]
  induction entries with
  | nil => simp
  | cons entry entries ih =>
      obtain ⟨above, sorted⟩ := List.pairwise_cons.mp sorted
      by_cases here : entry.1 = key
      · rw [List.find?_cons_of_pos (by simpa using here), Option.map_some, Option.some_inj,
          List.mem_cons]
        constructor
        · rintro rfl
          exact .inl (Prod.ext here.symm rfl)
        · rintro (same | later)
          · rw [← same]
          · exact absurd here (ne_of_lt (above _ later))
      · rw [List.find?_cons_of_neg (by simpa using here), ih sorted, List.mem_cons]
        exact ⟨.inr, fun member => member.resolve_left fun same => here (same ▸ rfl)⟩

theorem mem_keys {map : SortedMap κ ν} {key : κ} :
    key ∈ map.keys ↔ ∃ value, map.find? key = some value := by
  simp only [keys, List.mem_map, find?_eq_some]
  exact ⟨fun ⟨⟨_, value⟩, member, same⟩ => ⟨value, same ▸ member⟩,
    fun ⟨value, member⟩ => ⟨_, member, rfl⟩⟩

/-- The keys are determined by which keys there are. -/
theorem keys_eq_of_mem_iff {μ : Type*} {map : SortedMap κ ν} {map' : SortedMap κ μ}
    (same : ∀ key, key ∈ map.keys ↔ key ∈ map'.keys) : map.keys = map'.keys := by
  have perm : map.keys.Perm map'.keys :=
    (List.perm_ext_iff_of_nodup map.keys_nodup map'.keys_nodup).mpr same
  exact perm.eq_of_pairwise (fun _ _ _ _ less greater => absurd greater (lt_asymm less))
    map.keys_sorted map'.keys_sorted

theorem contains_iff {map : SortedMap κ ν} {key : κ} :
    map.contains key = true ↔ key ∈ map.keys := by
  rw [contains, Option.isSome_iff_exists, mem_keys]

@[simp] theorem keys_empty : (empty : SortedMap κ ν).keys = [] := rfl

@[simp] theorem find?_empty (key : κ) : (empty : SortedMap κ ν).find? key = none := rfl

/-- The least key. -/
def firstKey? (map : SortedMap κ ν) : Option κ := map.keys.head?

theorem firstKey?_eq_some {map : SortedMap κ ν} {key : κ} (first : map.firstKey? = some key) :
    key ∈ map.keys ∧ ∀ other ∈ map.keys, key ≤ other := by
  obtain ⟨rest, keys⟩ := List.head?_eq_some_iff.mp first
  have sorted := map.keys_sorted
  rw [keys] at sorted ⊢
  refine ⟨List.mem_cons_self, List.forall_mem_cons.mpr ⟨le_rfl, fun other member => ?_⟩⟩
  exact le_of_lt ((List.pairwise_cons.mp sorted).1 other member)

/-! ## Insertion -/

/-- The entries after one is added, or its value replaced. -/
def insertEntry (key : κ) (value : ν) : List (κ × ν) → List (κ × ν)
  | [] => [(key, value)]
  | entry :: entries =>
      if key < entry.1 then (key, value) :: entry :: entries
      else if key = entry.1 then (key, value) :: entries
      else entry :: insertEntry key value entries

theorem mem_insertEntry {key : κ} {value : ν} {entries : List (κ × ν)}
    (sorted : entries.Pairwise (fun first second => first.1 < second.1)) {entry : κ × ν} :
    entry ∈ insertEntry key value entries ↔
      entry = (key, value) ∨ (entry ∈ entries ∧ entry.1 ≠ key) := by
  induction entries with
  | nil => simp [insertEntry]
  | cons first entries ih =>
      obtain ⟨above, sorted⟩ := List.pairwise_cons.mp sorted
      rw [insertEntry]
      split_ifs with less same
      · have other : ∀ old ∈ first :: entries, old.1 ≠ key := by
          intro old member
          rcases List.mem_cons.mp member with rfl | later
          · exact ne_of_gt less
          · exact ne_of_gt (less.trans (above old later))
        rw [List.mem_cons]
        exact or_congr_right ⟨fun member => ⟨member, other entry member⟩, And.left⟩
      · have other : ∀ old ∈ entries, old.1 ≠ key := fun old later =>
          ne_of_gt (same ▸ above old later)
        rw [List.mem_cons, List.mem_cons]
        refine or_congr_right ⟨fun later => ⟨.inr later, other entry later⟩, ?_⟩
        rintro ⟨rfl | later, different⟩
        · exact absurd same.symm different
        · exact later
      · rw [List.mem_cons, List.mem_cons, ih sorted]
        constructor
        · rintro (rfl | rfl | ⟨later, different⟩)
          · exact .inr ⟨.inl rfl, fun equal => same equal.symm⟩
          · exact .inl rfl
          · exact .inr ⟨.inr later, different⟩
        · rintro (rfl | ⟨rfl | later, different⟩)
          · exact .inr (.inl rfl)
          · exact .inl rfl
          · exact .inr (.inr ⟨later, different⟩)

theorem insertEntry_sorted {key : κ} {value : ν} {entries : List (κ × ν)}
    (sorted : entries.Pairwise (fun first second => first.1 < second.1)) :
    (insertEntry key value entries).Pairwise (fun first second => first.1 < second.1) := by
  induction entries with
  | nil => simp [insertEntry]
  | cons first entries ih =>
      have tail := List.pairwise_cons.mp sorted
      rw [insertEntry]
      split_ifs with less same
      · refine List.pairwise_cons.mpr ⟨?_, sorted⟩
        intro old member
        rcases List.mem_cons.mp member with rfl | later
        · exact less
        · exact less.trans (tail.1 old later)
      · exact List.pairwise_cons.mpr ⟨fun old later => same ▸ tail.1 old later, tail.2⟩
      · refine List.pairwise_cons.mpr ⟨?_, ih tail.2⟩
        intro old member
        rcases (mem_insertEntry tail.2).mp member with rfl | ⟨later, _⟩
        · exact lt_of_le_of_ne (not_lt.mp less) fun equal => same equal.symm
        · exact tail.1 old later

/-- `map[key] = value`. -/
def insert (map : SortedMap κ ν) (key : κ) (value : ν) : SortedMap κ ν :=
  ⟨insertEntry key value map.entries, insertEntry_sorted map.sorted⟩

theorem find?_insert (map : SortedMap κ ν) (key : κ) (value : ν) (other : κ) :
    (map.insert key value).find? other = if other = key then some value else map.find? other := by
  ext found
  rw [find?_eq_some, insert, mem_insertEntry map.sorted]
  split_ifs with same
  · subst same
    simp [eq_comm]
  · rw [find?_eq_some]
    simp [same]

theorem mem_keys_insert {map : SortedMap κ ν} {key other : κ} {value : ν} :
    other ∈ (map.insert key value).keys ↔ other = key ∨ other ∈ map.keys := by
  rw [mem_keys, mem_keys, find?_insert]
  split_ifs with same <;> simp [same]

/-- Replacing a value keeps the keys. -/
theorem keys_insert_of_mem {map : SortedMap κ ν} {key : κ} {value : ν}
    (member : key ∈ map.keys) : (map.insert key value).keys = map.keys := by
  apply keys_eq_of_mem_iff
  intro other
  rw [mem_keys_insert]
  constructor
  · rintro (rfl | old)
    · exact member
    · exact old
  · exact .inr

/-! ## Removal -/

def erase (map : SortedMap κ ν) (key : κ) : SortedMap κ ν :=
  ⟨map.entries.filter fun entry => entry.1 ≠ key, map.sorted.filter _⟩

theorem find?_erase (map : SortedMap κ ν) (key other : κ) :
    (map.erase key).find? other = if other = key then none else map.find? other := by
  ext found
  rw [find?_eq_some, erase, List.mem_filter]
  split_ifs with same
  · simp [same]
  · rw [find?_eq_some]
    simp [same]

theorem mem_keys_erase {map : SortedMap κ ν} {key other : κ} :
    other ∈ (map.erase key).keys ↔ other ≠ key ∧ other ∈ map.keys := by
  rw [mem_keys, mem_keys, find?_erase]
  split_ifs with same <;> simp [same]

/-! ## Rewriting every value -/

/-- One pass over the map that rewrites every value and removes the entries
whose new value is absent. -/
def filterMap {μ : Type*} (map : SortedMap κ ν) (rewrite : ν → Option μ) : SortedMap κ μ where
  entries := map.entries.filterMap fun entry => (rewrite entry.2).map fun value => (entry.1, value)
  sorted := by
    apply map.sorted.filterMap _
    intro first second less first' isFirst second' isSecond
    obtain ⟨_, _, rfl⟩ := Option.map_eq_some_iff.mp isFirst
    obtain ⟨_, _, rfl⟩ := Option.map_eq_some_iff.mp isSecond
    exact less

theorem find?_filterMap {μ : Type*} (map : SortedMap κ ν) (rewrite : ν → Option μ) (key : κ) :
    (map.filterMap rewrite).find? key = (map.find? key).bind rewrite := by
  ext found
  rw [find?_eq_some, Option.bind_eq_some_iff, filterMap, List.mem_filterMap]
  constructor
  · rintro ⟨⟨_, value⟩, member, isFound⟩
    obtain ⟨_, rewritten, equal⟩ := Option.map_eq_some_iff.mp isFound
    cases equal
    exact ⟨value, find?_eq_some.mpr member, rewritten⟩
  · rintro ⟨value, member, rewritten⟩
    exact ⟨(key, value), find?_eq_some.mp member, by simp [rewritten]⟩

end SortedMap
