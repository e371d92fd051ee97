import Os2018.VirtualMemory.PageTree

/-!
# Frames to use

`findFreeFrame` goes down from the root until it finds a table without entries.
Three things go wrong on the way. The call for a table returns it when it is
empty, also when it is the one to avoid. A call that finds nothing under its
table comes to the end of `findEmptyTable`, where no value is returned. And an
empty root gives frame 1 without a look at `avoid`.

So the first entry in use decides at each level but the last one searched, and
the result can be relied on exactly if these entries lead to an empty table that
is not to be avoided (`findFreeFrame_free_iff`).
-/

set_option autoImplicit false

namespace Os2018.VirtualMemory

open Memory

variable {m : Memory} {avoided : Nat}

/-! ## Statement -/

namespace Memory

/-- The frame is an empty table, or no table refers to it. -/
def Usable (m : Memory) (frame : Nat) : Prop :=
  (m.IsTable frame ∧ m.IsEmpty frame) ∨ ∀ table i, ¬ m.References table i frame

/-- The entry refers to an empty table that is not to be avoided. -/
def IsFound (m : Memory) (avoided frame i : Nat) : Prop :=
  m.ram frame i ≠ 0 ∧ m.IsEmpty (ofWord (m.ram frame i)) ∧ ofWord (m.ram frame i) ≠ avoided

/-- The frame that the first entry in use refers to. -/
def firstReference (m : Memory) (frame : Nat) : Option Nat :=
  ((List.range pageSize).find? fun i => m.ram frame i ≠ 0).map fun i => ofWord (m.ram frame i)

/-- The first entries in use lead from the frame, which is `levels` above the
last tables, to an empty table that is not to be avoided. The tables right above
the last ones are searched whole. -/
def LeadsToEmpty (m : Memory) (avoided : Nat) : (levels : Nat) → (frame : Nat) → Prop
  | 0, _ => False
  | 1, frame => ∃ i < pageSize, m.IsFound avoided frame i
  | levels + 2, frame => ∃ child, m.firstReference frame = some child ∧
      if m.IsEmpty child then child ≠ avoided else m.LeadsToEmpty avoided (levels + 1) child

end Memory

/-- A call of `findFreeFrame` returns a frame that can be used. -/
def ReturnsFree (atEnd : Nat) (m : Memory) (pageNumber : Nat) (avoid : Fin tablesDepth → Nat)
    (currDepth : Fin tablesDepth) : Prop :=
  ∃ fuel frame m', findFreeFrame atEnd m pageNumber avoid currDepth fuel = some (frame, m') ∧
    0 < frame ∧ frame < numFrames ∧ frame ≠ avoid currDepth ∧ m'.Usable frame

/-- The search comes upon an empty table, and not on the one to avoid. -/
def FindsEmpty (m : Memory) (avoided : Nat) : Prop :=
  if m.IsEmpty 0 then avoided ≠ 1 else m.LeadsToEmpty avoided (tablesDepth - 1) 0

/-! ## The loop -/

/-- The search ends with such a frame. -/
def Gives (found : Option Found) (P : Nat → Prop) : Prop :=
  ∃ result, found = some result ∧ P result.frame

theorem Gives.imp {found : Option Found} {P Q : Nat → Prop} (gives : Gives found P)
    (weaker : ∀ frame, P frame → Q frame) : Gives found Q := by
  obtain ⟨result, run, holds⟩ := gives
  exact ⟨result, run, weaker _ holds⟩

section Loop

variable {atEnd : Nat} {below : Nat → Nat → Nat → Option Found} {i : Nat} {rest : List Nat}
  {frame currParentFrame maxFrameI : Nat}

theorem searchEntries_unused (isFrame : frame < numFrames) (isEntry : i < pageSize)
    (unused : m.ram frame i = 0) :
    searchEntries atEnd m avoided below (i :: rest) frame currParentFrame maxFrameI =
      searchEntries atEnd m avoided below rest frame currParentFrame maxFrameI := by
  simp [searchEntries, m.pmRead_address isFrame isEntry, unused]

/-- The maximum after an entry in use. -/
def maxWith (maxFrameI newFrameIndex : Nat) : Nat :=
  if newFrameIndex > maxFrameI then newFrameIndex else maxFrameI

/-- An empty table that is not to be avoided ends the search. -/
theorem searchEntries_empty (isFrame : frame < numFrames) (isEntry : i < pageSize)
    (used : m.ram frame i ≠ 0) (isChild : ofWord (m.ram frame i) < numFrames)
    (empty : m.IsEmpty (ofWord (m.ram frame i))) (other : ofWord (m.ram frame i) ≠ avoided) :
    searchEntries atEnd m avoided below (i :: rest) frame currParentFrame maxFrameI =
      some ⟨ofWord (m.ram frame i), frame, maxWith maxFrameI (ofWord (m.ram frame i))⟩ := by
  simp [searchEntries, m.pmRead_address isFrame isEntry, used, isFrameEmpty_eq isChild, empty,
    other.symm, maxWith]

/-- Any other table is searched itself. -/
theorem searchEntries_below (isFrame : frame < numFrames) (isEntry : i < pageSize)
    (used : m.ram frame i ≠ 0) (isChild : ofWord (m.ram frame i) < numFrames)
    (notFree : m.IsEmpty (ofWord (m.ram frame i)) → ofWord (m.ram frame i) = avoided) :
    searchEntries atEnd m avoided below (i :: rest) frame currParentFrame maxFrameI =
      (below (ofWord (m.ram frame i)) frame (maxWith maxFrameI (ofWord (m.ram frame i)))).bind
        fun found =>
          if found.frame ≠ 0 then some { found with currParentFrame }
          else
            searchEntries atEnd m avoided below rest found.currParentFrame currParentFrame
              found.maxFrameI := by
  have read := m.pmRead_address isFrame isEntry
  by_cases empty : m.IsEmpty (ofWord (m.ram frame i))
  · simp [searchEntries, read, used, isFrameEmpty_eq isChild, (notFree empty).symm, maxWith]
  · simp [searchEntries, read, used, isFrameEmpty_eq isChild, empty, maxWith]

/-- Entries before the first one in use do not matter. -/
theorem searchEntries_find {entries : List Nat} (isFrame : frame < numFrames)
    (areEntries : ∀ i ∈ entries, i < pageSize)
    (first : entries.find? (fun i => m.ram frame i ≠ 0) = some i) :
    ∃ rest, searchEntries atEnd m avoided below entries frame currParentFrame maxFrameI =
      searchEntries atEnd m avoided below (i :: rest) frame currParentFrame maxFrameI := by
  induction entries with
  | nil => cases first
  | cons j entries ih =>
      rw [List.forall_mem_cons] at areEntries
      by_cases unused : m.ram frame j = 0
      · rw [searchEntries_unused isFrame areEntries.1 unused]
        rw [List.find?_cons_of_neg (by simpa using unused)] at first
        exact ih areEntries.2 first
      · rw [List.find?_cons_of_pos (by simpa using unused), Option.some.injEq] at first
        exact ⟨entries, by rw [first]⟩

/-- Right above the last tables all entries are looked at. -/
theorem searchEntries_last (wellFormed : m.WellFormed) (isTable : m.IsTable frame)
    (isFrame : frame < numFrames) {entries : List Nat} (areEntries : ∀ i ∈ entries, i < pageSize) :
    Gives (searchEntries atEnd m avoided (findEmptyTable atEnd m avoided 0) entries frame
        currParentFrame maxFrameI) fun result =>
      (∃ i ∈ entries, m.IsFound avoided frame i ∧ result = ofWord (m.ram frame i)) ∨
        (∀ i ∈ entries, ¬ m.IsFound avoided frame i) ∧ result = atEnd := by
  induction entries generalizing maxFrameI with
  | nil => exact ⟨_, rfl, .inr ⟨fun _ member => absurd member List.not_mem_nil, rfl⟩⟩
  | cons i entries ih =>
      rw [List.forall_mem_cons] at areEntries
      have later (notFound : ¬ m.IsFound avoided frame i) (max : Nat) :
          Gives (searchEntries atEnd m avoided (findEmptyTable atEnd m avoided 0) entries frame
            currParentFrame max) fun result =>
          (∃ j ∈ i :: entries, m.IsFound avoided frame j ∧ result = ofWord (m.ram frame j)) ∨
            (∀ j ∈ i :: entries, ¬ m.IsFound avoided frame j) ∧ result = atEnd := by
        refine (ih areEntries.2).imp ?_
        rintro result (⟨j, member, isFound, same⟩ | ⟨none, same⟩)
        · exact .inl ⟨j, List.mem_cons_of_mem _ member, isFound, same⟩
        · exact .inr ⟨List.forall_mem_cons.mpr ⟨notFound, none⟩, same⟩
      by_cases used : m.ram frame i = 0
      · rw [searchEntries_unused isFrame areEntries.1 used]
        exact later (fun isFound => isFound.1 used) maxFrameI
      have isChild := (wellFormed.frame_of_entry isTable areEntries.1 used).2
      by_cases isFound : m.IsFound avoided frame i
      · obtain ⟨-, empty, other⟩ := isFound
        rw [searchEntries_empty isFrame areEntries.1 used isChild empty other]
        exact ⟨_, rfl, .inl ⟨i, List.mem_cons_self, ⟨used, empty, other⟩, rfl⟩⟩
      · rw [searchEntries_below isFrame areEntries.1 used isChild
          fun empty => not_not.mp fun other => isFound ⟨used, empty, other⟩]
        exact later isFound _

end Loop

/-! ## The search -/

section Search

variable {atEnd frame currParentFrame maxFrameI levels : Nat}

theorem findEmptyTable_isEmpty (isFrame : frame < numFrames) (empty : m.IsEmpty frame) :
    findEmptyTable atEnd m avoided (levels + 1) frame currParentFrame maxFrameI =
      some ⟨frame, currParentFrame, maxFrameI⟩ := by
  simp [findEmptyTable, isFrameEmpty_eq isFrame, empty]

theorem findEmptyTable_used (isFrame : frame < numFrames) (used : ¬ m.IsEmpty frame) :
    findEmptyTable atEnd m avoided (levels + 1) frame currParentFrame maxFrameI =
      searchEntries atEnd m avoided (findEmptyTable atEnd m avoided levels) (List.range pageSize)
        frame currParentFrame maxFrameI := by
  simp [findEmptyTable, isFrameEmpty_eq isFrame, used]

theorem exists_firstReference (used : ¬ m.IsEmpty frame) :
    ∃ child, m.firstReference frame = some child := by
  rw [← Option.isSome_iff_exists, Memory.firstReference, Option.isSome_map, List.find?_isSome]
  simp only [Memory.IsEmpty, not_forall] at used
  obtain ⟨i, isEntry, notZero⟩ := used
  exact ⟨i, List.mem_range.mpr isEntry, decide_eq_true notZero⟩

theorem entry_of_firstReference {child : Nat} (first : m.firstReference frame = some child) :
    ∃ i < pageSize, m.ram frame i ≠ 0 ∧ ofWord (m.ram frame i) = child ∧
      (List.range pageSize).find? (fun i => m.ram frame i ≠ 0) = some i := by
  obtain ⟨i, found, rfl⟩ := Option.map_eq_some_iff.mp first
  have used := List.find?_some found
  exact ⟨i, List.mem_range.mp (List.mem_of_find?_eq_some found), by simpa using used, rfl, found⟩

theorem not_isEmpty_of_entry {i : Nat} (isEntry : i < pageSize) (used : m.ram frame i ≠ 0) :
    ¬ m.IsEmpty frame :=
  fun empty => used (empty i isEntry)

/-- Above the tables right above the last ones, the first entry in use decides,
when the search of its table does not come back with nothing. -/
theorem gives_of_first (wellFormed : m.WellFormed) (isTable : m.IsTable frame)
    (isFrame : frame < numFrames) {child : Nat} (first : m.firstReference frame = some child)
    {P : Nat → Prop} (free : m.IsEmpty child → child ≠ avoided → P child)
    (below : (m.IsEmpty child → child = avoided) → ∀ max,
      Gives (findEmptyTable atEnd m avoided levels child frame max) fun result =>
        result ≠ 0 ∧ P result) :
    Gives (findEmptyTable atEnd m avoided (levels + 1) frame currParentFrame maxFrameI) P := by
  obtain ⟨i, isEntry, used, rfl, found⟩ := entry_of_firstReference first
  have isChild := (wellFormed.frame_of_entry isTable isEntry used).2
  rw [findEmptyTable_used isFrame (not_isEmpty_of_entry isEntry used)]
  obtain ⟨rest, run⟩ := searchEntries_find isFrame (fun i => List.mem_range.mp) found
  rw [run]
  by_cases notFree : m.IsEmpty (ofWord (m.ram frame i)) → ofWord (m.ram frame i) = avoided
  · obtain ⟨result, isResult, notZero, holds⟩ :=
      below notFree (maxWith maxFrameI (ofWord (m.ram frame i)))
    rw [searchEntries_below isFrame isEntry used isChild notFree, isResult, Option.bind_some,
      if_pos notZero]
    exact ⟨_, rfl, holds⟩
  · obtain ⟨empty, other⟩ := Classical.not_imp.mp notFree
    rw [searchEntries_empty isFrame isEntry used isChild empty other]
    exact ⟨_, rfl, free empty other⟩

/-- A table that can be used. -/
def IsFree (m : Memory) (avoided frame : Nat) : Prop :=
  m.IsTable frame ∧ m.IsEmpty frame ∧ frame ≠ avoided ∧ 0 < frame ∧ frame < numFrames

variable (wellFormed : m.WellFormed)
include wellFormed

/-- Where the first entries in use lead to an empty table, such a table is
returned. -/
theorem findEmptyTable_free {depth number : Nat} (reaches : m.Reaches depth number frame)
    (atLevel : depth + levels + 1 = tablesDepth) (leads : m.LeadsToEmpty avoided levels frame) :
    Gives (findEmptyTable atEnd m avoided levels frame currParentFrame maxFrameI)
      (IsFree m avoided) := by
  induction levels generalizing depth number frame currParentFrame maxFrameI with
  | zero => exact leads.elim
  | succ levels ih =>
      have isFrame := wellFormed.frame_lt reaches
      have isTable : m.IsTable frame := ⟨depth, number, by omega, reaches⟩
      -- An empty table below this one can be used.
      have free : ∀ i < pageSize, m.ram frame i ≠ 0 → m.IsEmpty (ofWord (m.ram frame i)) →
          ofWord (m.ram frame i) ≠ avoided → IsFree m avoided (ofWord (m.ram frame i)) :=
        fun i isEntry used empty other =>
          ⟨⟨depth + 1, _, by omega, reaches.entry (by omega) isEntry used⟩, empty, other,
            wellFormed.frame_of_entry isTable isEntry used⟩
      cases levels with
      | zero =>
          obtain ⟨i, isEntry, isFound⟩ := leads
          rw [findEmptyTable_used isFrame (not_isEmpty_of_entry isEntry isFound.1)]
          refine (searchEntries_last wellFormed isTable isFrame fun i => List.mem_range.mp).imp ?_
          rintro result (⟨j, member, ⟨used, empty, other⟩, rfl⟩ | ⟨none, -⟩)
          · exact free j (List.mem_range.mp member) used empty other
          · exact absurd isFound (none i (List.mem_range.mpr isEntry))
      | succ levels =>
          obtain ⟨child, first, decided⟩ := leads
          obtain ⟨i, isEntry, used, rfl, -⟩ := entry_of_firstReference first
          refine gives_of_first wellFormed isTable isFrame first (free i isEntry used) ?_
          intro notFree max
          split_ifs at decided with empty
          · exact absurd (notFree empty) decided
          · exact (ih (reaches.entry (by omega) isEntry used) (by omega) decided).imp
              fun result isFree => ⟨Nat.ne_of_gt isFree.2.2.2.1, isFree⟩

/-- Where they do not, the search comes back with the table to avoid, or comes to
the end of `findEmptyTable`. -/
theorem findEmptyTable_bad {depth number : Nat} (reaches : m.Reaches depth number frame)
    (atLevel : depth + levels + 1 = tablesDepth) (many : 0 < levels) (used : ¬ m.IsEmpty frame)
    (misleads : ¬ m.LeadsToEmpty avoided levels frame) :
    Gives (findEmptyTable numFrames m avoided levels frame currParentFrame maxFrameI)
      fun result => result ≠ 0 ∧ (result = avoided ∨ result = numFrames) := by
  induction levels generalizing depth number frame currParentFrame maxFrameI with
  | zero => exact absurd many (Nat.lt_irrefl 0)
  | succ levels ih =>
      have isFrame := wellFormed.frame_lt reaches
      have isTable : m.IsTable frame := ⟨depth, number, by omega, reaches⟩
      cases levels with
      | zero =>
          rw [findEmptyTable_used isFrame used]
          refine (searchEntries_last wellFormed isTable isFrame fun i => List.mem_range.mp).imp ?_
          rintro result (⟨j, member, isFound, -⟩ | ⟨-, rfl⟩)
          · exact absurd ⟨j, List.mem_range.mp member, isFound⟩ misleads
          · exact ⟨by decide, .inr rfl⟩
      | succ levels =>
          obtain ⟨child, first⟩ := exists_firstReference used
          obtain ⟨i, isEntry, isUsed, rfl, -⟩ := entry_of_firstReference first
          have isChild := wellFormed.frame_of_entry isTable isEntry isUsed
          have notDecided : ¬ if m.IsEmpty (ofWord (m.ram frame i)) then
              ofWord (m.ram frame i) ≠ avoided
              else m.LeadsToEmpty avoided (levels + 1) (ofWord (m.ram frame i)) :=
            fun decided => misleads ⟨_, first, decided⟩
          refine gives_of_first wellFormed isTable isFrame first ?_ ?_
          · intro empty other
            exact absurd ((if_pos empty).mpr other) notDecided
          · intro notFree max
            by_cases empty : m.IsEmpty (ofWord (m.ram frame i))
            · rw [findEmptyTable_isEmpty isChild.2 empty]
              exact ⟨_, rfl, Nat.ne_of_gt isChild.1, Nat.ne_of_gt isChild.1, .inl (notFree empty)⟩
            · rw [if_neg empty] at notDecided
              exact (ih (reaches.entry (by omega) isEntry isUsed) (by omega) (by omega) empty
                notDecided).imp fun result isBad => ⟨isBad.1, isBad⟩

end Search

/-! ## `findFreeFrame` -/

section FreeFrame

variable {atEnd pageNumber : Nat} {avoid : Fin tablesDepth → Nat} {currDepth : Fin tablesDepth}

theorem findFreeFrame_isEmpty (rootEmpty : m.IsEmpty 0) (fuel : Nat) :
    findFreeFrame atEnd m pageNumber avoid currDepth fuel = some (1, m) := by
  simp [findFreeFrame, isFrameEmpty_eq (show 0 < numFrames by decide), rootEmpty]

/-- What the search finds is returned. -/
theorem findFreeFrame_found (used : ¬ m.IsEmpty 0) {found : Found} (notZero : found.frame ≠ 0)
    (run : findEmptyTable atEnd m (avoid currDepth) (tablesDepth - 1) 0 0 0 = some found)
    (fuel : Nat) :
    findFreeFrame atEnd m pageNumber avoid currDepth fuel = some (found.frame, m) := by
  simp [findFreeFrame, isFrameEmpty_eq (show 0 < numFrames by decide), used, run, notZero]

/-- Under an empty root no frame is in use. -/
theorem usable_of_isEmpty_root (rootEmpty : m.IsEmpty 0) (frame : Nat) : m.Usable frame := by
  refine .inr fun table i references => ?_
  obtain ⟨depth, number, -, reaches⟩ := references.isTable
  have isRoot := reaches_of_isEmpty_root rootEmpty reaches
  exact references.used (isRoot ▸ rootEmpty i references.isEntry)

/-- **Frames in use.** Whatever a caller of `findEmptyTable` reads where nothing
is returned, `findFreeFrame` returns a frame that can be used, exactly if the
search comes upon an empty table and not on the one to avoid. -/
theorem findFreeFrame_free_iff (wellFormed : m.WellFormed) :
    (∀ atEnd, ReturnsFree atEnd m pageNumber avoid currDepth) ↔
      FindsEmpty m (avoid currDepth) := by
  rw [FindsEmpty]
  split_ifs with rootEmpty
  · constructor
    · intro free
      obtain ⟨fuel, frame, m', run, -, -, notAvoided, -⟩ := free 0
      rw [findFreeFrame_isEmpty rootEmpty] at run
      cases run
      exact notAvoided.symm
    · intro notAvoided atEnd
      exact ⟨0, 1, m, findFreeFrame_isEmpty rootEmpty 0, by decide, by decide, notAvoided.symm,
        usable_of_isEmpty_root rootEmpty 1⟩
  · constructor
    · intro free
      by_contra misleads
      obtain ⟨result, search, notZero, isBad⟩ :
          Gives (findEmptyTable numFrames m (avoid currDepth) (tablesDepth - 1) 0 0 0)
            fun result => result ≠ 0 ∧ (result = avoid currDepth ∨ result = numFrames) :=
        findEmptyTable_bad wellFormed .root (by decide) (by decide) rootEmpty misleads
      obtain ⟨fuel, frame, m', run, -, isFrame, notAvoided, -⟩ := free numFrames
      rw [findFreeFrame_found rootEmpty notZero search] at run
      cases run
      rcases isBad with avoided | outside
      · exact notAvoided avoided
      · exact absurd outside (Nat.ne_of_lt isFrame)
    · intro leads atEnd
      obtain ⟨result, search, isTable, empty, notAvoided, positive, isFrame⟩ :
          Gives (findEmptyTable atEnd m (avoid currDepth) (tablesDepth - 1) 0 0 0)
            (IsFree m (avoid currDepth)) :=
        findEmptyTable_free wellFormed .root (by decide) leads
      exact ⟨0, result.frame, m,
        findFreeFrame_found rootEmpty (Nat.ne_of_gt positive) search 0, positive, isFrame,
        notAvoided, .inl ⟨isTable, empty⟩⟩

/-- The root refers to an empty table, which is not to be avoided. -/
theorem findFreeFrame_free_iff_empty :
    (branch 1).WellFormed ∧
      ∀ atEnd, ReturnsFree atEnd (branch 1) 0 (fun _ => 2) ⟨0, by decide⟩ := by
  refine ⟨branch_wellFormed 1, (findFreeFrame_free_iff (branch_wellFormed 1)).mpr ?_⟩
  rw [FindsEmpty, if_neg (by decide)]
  exact ⟨1, by decide, by rw [if_pos (by decide)]; decide⟩

/-- **The table to avoid.** The root refers to an empty table, and it is
returned although it is to be avoided. -/
theorem avoided_table_returned :
    (branch 1).WellFormed ∧
      (∀ atEnd fuel, findFreeFrame atEnd (branch 1) 0 (fun _ => 1) ⟨0, by decide⟩ fuel =
        some (1, branch 1)) ∧
      ∀ atEnd, ¬ ReturnsFree atEnd (branch 1) 0 (fun _ => 1) ⟨0, by decide⟩ := by
  have result : ∀ atEnd fuel,
      findFreeFrame atEnd (branch 1) 0 (fun _ => 1) ⟨0, by decide⟩ fuel = some (1, branch 1) :=
    fun _ _ => rfl
  refine ⟨branch_wellFormed 1, result, ?_⟩
  rintro atEnd ⟨fuel, frame, m', run, -, -, notAvoided, -⟩
  rw [result] at run
  cases run
  exact notAvoided rfl

/-- With 0 for the missing value, the frame after the last table is returned,
which may hold a page. -/
example : findFreeFrame 0 (branch 4) 0 (fun _ => 0) ⟨0, by decide⟩ 0 = some (4, branch 4) := rfl

end FreeFrame

end Os2018.VirtualMemory
