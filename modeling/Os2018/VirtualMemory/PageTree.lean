import Mathlib.Tactic.SplitIfs
import Os2018.VirtualMemory.Paging

/-!
# The tree of tables

Every frame of the tree is reached from the root by following entries, as many as
the frame is deep. The entries followed are the digits of a number, and for a
page frame this is the number of the page. At depths below `tablesDepth` the
frames are tables. Nothing is assumed of the words in page frames, or in frames
outside the tree.
-/

set_option autoImplicit false

namespace Os2018.VirtualMemory

namespace Memory

/-! ## Trees -/

/-- The frame is in the tree at the depth, under the number. -/
inductive Reaches (m : Memory) : (depth number frame : Nat) → Prop where
  | root : m.Reaches 0 0 0
  | entry {depth number frame i : Nat} (table : m.Reaches depth number frame)
      (isTable : depth < tablesDepth) (isEntry : i < pageSize) (used : m.ram frame i ≠ 0) :
      m.Reaches (depth + 1) (number * pageSize + i) (ofWord (m.ram frame i))

/-- The frame is a table of the tree. -/
def IsTable (m : Memory) (frame : Nat) : Prop :=
  ∃ depth number, depth < tablesDepth ∧ m.Reaches depth number frame

/-- An entry of a table refers to the frame. -/
structure References (m : Memory) (table i frame : Nat) : Prop where
  isTable : m.IsTable table
  isEntry : i < pageSize
  used : m.ram table i ≠ 0
  target : ofWord (m.ram table i) = frame

/-- All words of the frame are zero. -/
def IsEmpty (m : Memory) (frame : Nat) : Prop := ∀ i < pageSize, m.ram frame i = 0

instance (m : Memory) (frame : Nat) : Decidable (m.IsEmpty frame) :=
  inferInstanceAs (Decidable (∀ i < pageSize, m.ram frame i = 0))

/-- Entries are zero or frame numbers other than the root's, and no frame is
referenced twice. -/
structure WellFormed (m : Memory) : Prop where
  entries : ∀ table, m.IsTable table → ∀ i < pageSize,
    m.ram table i = 0 ∨ 1 ≤ m.ram table i ∧ m.ram table i < numFrames
  once : ∀ table i table' i' frame, m.References table i frame → m.References table' i' frame →
    table = table' ∧ i = i'

variable {m : Memory}

/-- An entry in use refers to a frame other than the root's. -/
theorem WellFormed.frame_of_entry (wellFormed : m.WellFormed) {table i : Nat}
    (isTable : m.IsTable table) (isEntry : i < pageSize) (used : m.ram table i ≠ 0) :
    0 < ofWord (m.ram table i) ∧ ofWord (m.ram table i) < numFrames := by
  obtain ⟨positive, below⟩ := (wellFormed.entries table isTable i isEntry).resolve_left used
  rw [numFrames_eq] at below ⊢
  rw [ofWord]
  omega

theorem WellFormed.frame_lt (wellFormed : m.WellFormed) {depth number frame : Nat}
    (reaches : m.Reaches depth number frame) : frame < numFrames := by
  cases reaches with
  | root => decide
  | entry table isTable isEntry used =>
      exact (wellFormed.frame_of_entry ⟨_, _, isTable, table⟩ isEntry used).2

/-- Under an empty root there is nothing. -/
theorem reaches_of_isEmpty_root (rootEmpty : m.IsEmpty 0) {depth number frame : Nat}
    (reaches : m.Reaches depth number frame) : frame = 0 := by
  induction reaches with
  | root => rfl
  | entry table isTable isEntry used ih =>
      subst ih
      exact absurd (rootEmpty _ isEntry) used

/-! ## Empty frames -/

theorem entriesEmpty_eq {frame : Nat} (isFrame : frame < numFrames) {entries : List Nat}
    (areEntries : ∀ i ∈ entries, i < pageSize) :
    entriesEmpty m frame entries = some (decide (∀ i ∈ entries, m.ram frame i = 0)) := by
  induction entries with
  | nil => simp [entriesEmpty]
  | cons i rest ih =>
      rw [List.forall_mem_cons] at areEntries
      simp only [entriesEmpty, m.pmRead_address isFrame areEntries.1, ih areEntries.2,
        List.forall_mem_cons]
      by_cases zero : m.ram frame i = 0 <;> simp [zero]

theorem isFrameEmpty_eq {frame : Nat} (isFrame : frame < numFrames) :
    isFrameEmpty m frame = some (decide (m.IsEmpty frame)) := by
  rw [isFrameEmpty, entriesEmpty_eq isFrame fun i => List.mem_range.mp]
  exact congrArg some (decide_eq_decide.mpr (by simp [IsEmpty]))

end Memory

/-! ## A tree of one branch -/

/-- The entry of a table of `branch` that refers to the next frame. -/
def branchEntry (frame : Nat) : Nat := if frame = 0 then 1 else 0

/-- `n` frames below the root, one under the other. -/
def branch (n : Nat) : Memory where
  ram := fun frame i => if frame < n ∧ i = branchEntry frame then ((frame + 1 : Nat) : Int) else 0
  swapFile := fun _ => none

theorem branch_used {n frame i : Nat} (used : (branch n).ram frame i ≠ 0) :
    frame < n ∧ i = branchEntry frame ∧ (branch n).ram frame i = ((frame + 1 : Nat) : Int) := by
  rw [branch] at used ⊢
  dsimp only at used ⊢
  split_ifs at used ⊢ with isNext
  · exact ⟨isNext.1, isNext.2, rfl⟩
  · exact absurd rfl used

/-- The frame at a depth has the number of the depth. -/
theorem branch_reaches {n depth number frame : Nat}
    (reaches : (branch n).Reaches depth number frame) : frame = depth ∧ depth ≤ tablesDepth := by
  induction reaches with
  | root => exact ⟨rfl, Nat.zero_le _⟩
  | entry table isTable isEntry used ih =>
      obtain ⟨-, -, value⟩ := branch_used used
      rw [tablesDepth_eq] at isTable
      rw [value, ofWord_natCast (by omega), ih.1]
      exact ⟨rfl, isTable⟩

theorem branch_wellFormed (n : Nat) : (branch n).WellFormed where
  entries := by
    rintro table ⟨depth, number, isTable, reaches⟩ i -
    by_cases used : (branch n).ram table i = 0
    · exact .inl used
    · obtain ⟨-, -, value⟩ := branch_used used
      have isDepth := (branch_reaches reaches).1
      rw [tablesDepth_eq] at isTable
      rw [value, numFrames_eq]
      omega
  once := by
    rintro table i table' i' frame first second
    obtain ⟨-, rfl, value⟩ := branch_used first.used
    obtain ⟨-, rfl, value'⟩ := branch_used second.used
    obtain ⟨depth, _, isTable, reaches⟩ := first.isTable
    obtain ⟨depth', _, isTable', reaches'⟩ := second.isTable
    have isDepth := (branch_reaches reaches).1
    have isDepth' := (branch_reaches reaches').1
    rw [tablesDepth_eq] at isTable isTable'
    have same := first.target.trans second.target.symm
    rw [value, value', ofWord_natCast (by omega), ofWord_natCast (by omega)] at same
    obtain rfl : table = table' := by omega
    exact ⟨rfl, rfl⟩

end Os2018.VirtualMemory
