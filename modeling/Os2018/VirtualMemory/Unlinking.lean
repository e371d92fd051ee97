import Os2018.VirtualMemory.Eviction

/-!
# Taking a page out of the tree

The search for a victim goes wrong, but what `frameEvicter` does with one is
right. In a well-formed tree each frame has one place, so that a page number
determines the frame of its page and the frame the number (`Holds.unique`). When
the victim is the frame of a page and the table is the one that refers to it, the
page goes to the swap file, the one entry is cleared, and all other pages stay
where they are (`evicted_right`). Restored to the same frame under the same
entry, it leaves the memory as it was.
-/

set_option autoImplicit false

namespace Os2018.VirtualMemory

open Function Memory

variable {m : Memory}

/-! ## What the loops do -/

namespace Memory

/-- `PMwrite(frame * PAGE_SIZE + i, value)` -/
def setEntry (m : Memory) (frame i : Nat) (value : Int) : Memory :=
  { m with ram := update m.ram frame (update (m.ram frame) i value) }

/-- The frame with zeros. -/
def zeroed (m : Memory) (frame : Nat) : Memory :=
  { m with ram := update m.ram frame fun i => if i < pageSize then 0 else m.ram frame i }

theorem setEntry_ram (m : Memory) (frame i : Nat) (value : Int) (table j : Nat) :
    (m.setEntry frame i value).ram table j =
      if table = frame ∧ j = i then value else m.ram table j := by
  by_cases same : table = frame
  · subst same
    by_cases here : j = i
    · simp [setEntry, here]
    · simp [setEntry, here]
  · simp [setEntry, same]

theorem zeroed_ram (m : Memory) (frame : Nat) {table j : Nat} (isEntry : j < pageSize) :
    (m.zeroed frame).ram table j = if table = frame then 0 else m.ram table j := by
  by_cases same : table = frame
  · subst same
    simp [zeroed, isEntry]
  · simp [zeroed, same]

theorem clearEntries_eq {frame : Nat} (isFrame : frame < numFrames) {entries : List Nat}
    (areEntries : ∀ i ∈ entries, i < pageSize) :
    clearEntries frame entries m = some { m with
      ram := update m.ram frame fun i => if i ∈ entries then 0 else m.ram frame i } := by
  induction entries generalizing m with
  | nil => simp [clearEntries]
  | cons i rest ih =>
      rw [List.forall_mem_cons] at areEntries
      rw [clearEntries, m.pmWrite_address isFrame areEntries.1]
      refine (ih areEntries.2).trans ?_
      rw [Option.some.injEq]
      dsimp only
      rw [update_idem]
      congr 2
      funext j
      by_cases later : j ∈ rest
      · simp [later]
      · by_cases here : j = i
        · simp [here]
        · simp [later, here]

theorem clearTable_eq {frame : Nat} (isFrame : frame < numFrames) :
    clearTable m frame = some (m.zeroed frame) := by
  rw [clearTable, clearEntries_eq isFrame fun i => List.mem_range.mp]
  simp [zeroed]

/-- The entry that refers to the frame is cleared, when it is the only one. -/
theorem clearReference_eq {frame parent i : Nat} (isFrame : parent < numFrames)
    {entries : List Nat} (areEntries : ∀ j ∈ entries, j < pageSize)
    (target : ofWord (m.ram parent i) = frame) (member : i ∈ entries)
    (only : ∀ j ∈ entries, ofWord (m.ram parent j) = frame → j = i) :
    clearReference frame parent entries m = some (m.setEntry parent i 0) := by
  induction entries with
  | nil => exact absurd member List.not_mem_nil
  | cons j rest ih =>
      rw [List.forall_mem_cons] at areEntries only
      rw [clearReference, m.pmRead_address isFrame areEntries.1]
      dsimp only [Option.bind_eq_bind, Option.bind_some]
      by_cases refers : ofWord (m.ram parent j) = frame
      · obtain rfl := only.1 refers
        rw [if_pos refers, m.pmWrite_address isFrame areEntries.1]
        rfl
      · rw [if_neg refers]
        refine ih areEntries.2 ((List.mem_cons.mp member).resolve_left ?_) only.2
        rintro rfl
        exact refers target

/-! ## One place for each frame -/

/-- A path to a frame spells one number. -/
theorem Reaches.same_frame {depth number frame frame' : Nat}
    (reaches : m.Reaches depth number frame) (reaches' : m.Reaches depth number frame') :
    frame = frame' := by
  induction reaches generalizing frame' with
  | root =>
      cases reaches'
      rfl
  | @entry depth number frame i table isTable isEntry used ih =>
      generalize isNumber : number * pageSize + i = spelled at reaches'
      cases reaches' with
      | @entry _ number' frame'' i' table' _ isEntry' used' =>
          have spell := @address_frame number i isEntry
          have spell' := @address_frame number' i' isEntry'
          rw [isNumber] at spell
          obtain rfl : number = number' := spell.1.symm.trans spell'.1
          obtain rfl : i = i' := spell.2.symm.trans spell'.2
          rw [ih table']

/-- A frame is at one depth, under one number. -/
theorem WellFormed.same_place (wellFormed : m.WellFormed) {depth number depth' number' frame : Nat}
    (reaches : m.Reaches depth number frame) (reaches' : m.Reaches depth' number' frame) :
    depth = depth' ∧ number = number' := by
  induction reaches generalizing depth' number' with
  | root =>
      generalize isRoot : 0 = root at reaches'
      cases reaches' with
      | root => exact ⟨rfl, rfl⟩
      | entry table isTable isEntry used =>
          have positive := (wellFormed.frame_of_entry ⟨_, _, isTable, table⟩ isEntry used).1
          exact absurd isRoot (Nat.ne_of_lt positive)
  | @entry depth number frame i table isTable isEntry used ih =>
      generalize isTarget : ofWord (m.ram frame i) = target at reaches'
      cases reaches' with
      | root =>
          have positive := (wellFormed.frame_of_entry ⟨_, _, isTable, table⟩ isEntry used).1
          exact absurd isTarget (Nat.ne_of_gt positive)
      | @entry depth' number' frame' i' table' isTable' isEntry' used' =>
          obtain ⟨rfl, rfl⟩ := wellFormed.once frame i frame' i' _
            ⟨⟨_, _, isTable, table⟩, isEntry, used, isTarget⟩
            ⟨⟨_, _, isTable', table'⟩, isEntry', used', rfl⟩
          obtain ⟨rfl, rfl⟩ := ih table'
          exact ⟨rfl, rfl⟩

theorem Reaches.number_lt {depth number frame : Nat} (reaches : m.Reaches depth number frame) :
    number < pageSize ^ depth := by
  induction reaches with
  | root => decide
  | @entry depth number frame i table isTable isEntry used ih =>
      rw [Nat.pow_succ]
      calc number * pageSize + i < number * pageSize + pageSize := by omega
        _ = (number + 1) * pageSize := (Nat.succ_mul ..).symm
        _ ≤ pageSize ^ depth * pageSize := Nat.mul_le_mul_right _ ih

variable {page table frame : Nat}

/-- The frame of a page is a frame at the depth of the pages, under the number of
the page. -/
theorem Holds.reaches (holds : m.Holds page table frame) : m.Reaches tablesDepth page frame := by
  obtain ⟨number, i, reaches, ⟨-, isEntry, used, rfl⟩, rfl⟩ := holds
  exact reaches.entry (by decide) isEntry used

/-- **Pages and frames.** A page is in one frame, and a frame has one page. -/
theorem Holds.unique (wellFormed : m.WellFormed) {page' table' frame' : Nat}
    (holds : m.Holds page table frame) (holds' : m.Holds page' table' frame') :
    page = page' ↔ frame = frame' := by
  constructor
  · rintro rfl
    exact holds.reaches.same_frame holds'.reaches
  · rintro rfl
    exact (wellFormed.same_place holds.reaches holds'.reaches).2

/-! ## The tree without the page -/

/-- The frame is cleared, and so is the entry of the table. -/
def Unlinked (m : Memory) (table i frame : Nat) (m' : Memory) : Prop :=
  ∀ table' j, j < pageSize → m'.ram table' j =
    if table' = frame ∨ (table' = table ∧ j = i) then 0 else m.ram table' j

section Unlinked

variable {i : Nat} {m' : Memory} (wellFormed : m.WellFormed)
  (reachesPage : m.Reaches tablesDepth page frame) (references : m.References table i frame)
  (unlinked : m.Unlinked table i frame m')
include wellFormed reachesPage references unlinked

/-- What is reached without the frame is what was reached, but for the frame. -/
theorem Unlinked.reaches_iff {depth number other : Nat} :
    m'.Reaches depth number other ↔ m.Reaches depth number other ∧ other ≠ frame := by
  have isFrame := (wellFormed.frame_of_entry references.isTable references.isEntry
    references.used).1
  rw [references.target] at isFrame
  constructor
  · intro reaches
    induction reaches with
    | root => exact ⟨.root, Nat.ne_of_lt isFrame⟩
    | @entry depth number frame' j inTree isTable isEntry used ih =>
        obtain ⟨before, notFrame⟩ := ih
        have value := unlinked frame' j isEntry
        have notEntry : ¬ (frame' = frame ∨ (frame' = table ∧ j = i)) := by
          intro cleared
          rw [if_pos cleared] at value
          exact used value
        rw [if_neg notEntry] at value
        rw [value] at used ⊢
        refine ⟨before.entry isTable isEntry used, fun same => notEntry (.inr ?_)⟩
        exact wellFormed.once frame' j table i frame
          ⟨⟨_, _, isTable, before⟩, isEntry, used, same⟩ references
  · rintro ⟨reaches, notFrame⟩
    induction reaches with
    | root => exact .root
    | @entry depth number frame' j before isTable isEntry used ih =>
        have value := unlinked frame' j isEntry
        -- The tables on the way lie above the pages.
        have isOther : frame' ≠ frame := by
          rintro rfl
          exact absurd (wellFormed.same_place before reachesPage).1 (Nat.ne_of_lt isTable)
        have notEntry : ¬ (frame' = frame ∨ (frame' = table ∧ j = i)) := by
          rintro (same | ⟨rfl, rfl⟩)
          · exact isOther same
          · exact notFrame references.target
        rw [if_neg notEntry] at value
        rw [← value] at used ⊢
        exact (ih isOther).entry isTable isEntry used

theorem Unlinked.was_referenced {table' j other : Nat} (after : m'.References table' j other) :
    m.References table' j other ∧ other ≠ frame := by
  obtain ⟨⟨depth, number, isTable, reaches⟩, isEntry, used, target⟩ := after
  obtain ⟨before, notFrame⟩ :=
    (unlinked.reaches_iff wellFormed reachesPage references).mp reaches
  have entry := (unlinked.reaches_iff wellFormed reachesPage references).mp
    (reaches.entry isTable isEntry used)
  have value := unlinked table' j isEntry
  have notEntry : ¬ (table' = frame ∨ (table' = table ∧ j = i)) := by
    intro cleared
    rw [if_pos cleared] at value
    exact used value
  rw [if_neg notEntry] at value
  rw [value] at used target entry
  exact ⟨⟨⟨depth, number, isTable, before⟩, isEntry, used, target⟩, target ▸ entry.2⟩

theorem Unlinked.still_referenced {table' j other : Nat} (before : m.References table' j other)
    (notFrame : other ≠ frame) : m'.References table' j other := by
  obtain ⟨⟨depth, number, isTable, reaches⟩, isEntry, used, target⟩ := before
  have isOther : table' ≠ frame := by
    rintro rfl
    exact absurd (wellFormed.same_place reaches reachesPage).1 (Nat.ne_of_lt isTable)
  have value := unlinked table' j isEntry
  have notEntry : ¬ (table' = frame ∨ (table' = table ∧ j = i)) := by
    rintro (same | ⟨rfl, rfl⟩)
    · exact isOther same
    · exact notFrame (target.symm.trans references.target)
  rw [if_neg notEntry] at value
  refine ⟨⟨depth, number, isTable, ?_⟩, isEntry, value ▸ used, value ▸ target⟩
  exact (unlinked.reaches_iff wellFormed reachesPage references).mpr ⟨reaches, isOther⟩

theorem Unlinked.keeps_wellFormed : m'.WellFormed where
  entries := by
    rintro table' ⟨depth, number, isTable, reaches⟩ j isEntry
    have before := ((unlinked.reaches_iff wellFormed reachesPage references).mp reaches).1
    rw [unlinked table' j isEntry]
    split_ifs
    · exact .inl rfl
    · exact wellFormed.entries table' ⟨depth, number, isTable, before⟩ j isEntry
  once := by
    intro table₁ i₁ table₂ i₂ other first second
    exact wellFormed.once table₁ i₁ table₂ i₂ other
      (unlinked.was_referenced wellFormed reachesPage references first).1
      (unlinked.was_referenced wellFormed reachesPage references second).1

theorem Unlinked.holds_iff {page' table' frame' : Nat} :
    m'.Holds page' table' frame' ↔ m.Holds page' table' frame' ∧ frame' ≠ frame := by
  constructor
  · rintro ⟨number, j, reaches, after, isPage⟩
    obtain ⟨before, notFrame⟩ := unlinked.was_referenced wellFormed reachesPage references after
    exact ⟨⟨number, j, ((unlinked.reaches_iff wellFormed reachesPage references).mp reaches).1,
      before, isPage⟩, notFrame⟩
  · rintro ⟨⟨number, j, reaches, before, isPage⟩, notFrame⟩
    refine ⟨number, j, ?_,
      unlinked.still_referenced wellFormed reachesPage references before notFrame, isPage⟩
    refine (unlinked.reaches_iff wellFormed reachesPage references).mpr ⟨reaches, ?_⟩
    rintro rfl
    exact absurd (wellFormed.same_place reaches reachesPage).1 (by decide)

end Unlinked

/-! ## What `frameEvicter` does with a victim -/

/-- The memory after `PMevict(frame, page)` and `createTable(frame, table)`. -/
def evicted (m : Memory) (page table i frame : Nat) : Memory :=
  Memory.setEntry (Memory.zeroed
    { m with swapFile := update m.swapFile page (some (m.ram frame)) } frame) table i 0

theorem evicted_unlinked (m : Memory) (page table i frame : Nat) :
    m.Unlinked table i frame (m.evicted page table i frame) := by
  intro table' j isEntry
  rw [evicted, setEntry_ram, zeroed_ram _ _ isEntry]
  by_cases isFrame : table' = frame
  · simp [isFrame]
  · simp [isFrame]

/-- A table of the tree is not the frame of a page. -/
theorem table_ne_page (wellFormed : m.WellFormed) (isTable : m.IsTable table)
    (reachesPage : m.Reaches tablesDepth page frame) : table ≠ frame := by
  rintro rfl
  obtain ⟨depth, number, above, reaches⟩ := isTable
  exact absurd (wellFormed.same_place reaches reachesPage).1 (Nat.ne_of_lt above)

theorem evict_run (wellFormed : m.WellFormed) {i : Nat}
    (reachesPage : m.Reaches tablesDepth page frame) (references : m.References table i frame)
    (absent : m.swapFile page = none) :
    (m.pmEvict frame page).bind (fun m => createTable m frame table) =
      some (m.evicted page table i frame) := by
  have inRange : page < numPages := Nat.lt_of_lt_of_eq reachesPage.number_lt rfl
  have isFrame := wellFormed.frame_lt reachesPage
  obtain ⟨depth, number, isTable, reaches⟩ := references.isTable
  have isParent := wellFormed.frame_lt reaches
  have other := table_ne_page wellFormed references.isTable reachesPage
  have missing : (m.swapFile page).isNone := by rw [absent]; rfl
  rw [pmEvict, if_pos ⟨missing, isFrame, inRange⟩, Option.bind_some, createTable,
    clearTable_eq isFrame]
  refine clearReference_eq isParent (fun j => List.mem_range.mp) ?_
    (List.mem_range.mpr references.isEntry) ?_
  · rw [zeroed_ram _ _ references.isEntry, if_neg other]
    exact references.target
  · intro j member refers
    have isEntry := List.mem_range.mp member
    rw [zeroed_ram _ _ isEntry, if_neg other] at refers
    have positive := (wellFormed.frame_of_entry references.isTable references.isEntry
      references.used).1
    rw [references.target] at positive
    have used : m.ram table j ≠ 0 := by
      intro zero
      have isZero : ofWord (m.ram table j) = 0 := by rw [zero]; rfl
      exact absurd (isZero.symm.trans refers) (Nat.ne_of_lt positive)
    exact (wellFormed.once table j table i frame ⟨references.isTable, isEntry, used, refers⟩
      references).2

/-- The way back: the entry refers to the frame again, and the page returns. -/
theorem restore_run (wellFormed : m.WellFormed) {i : Nat}
    (reachesPage : m.Reaches tablesDepth page frame) (references : m.References table i frame)
    (absent : m.swapFile page = none) :
    (((m.evicted page table i frame).pmWrite (address table i) frame).bind fun m' =>
      m'.pmRestore frame page) = some m := by
  obtain ⟨depth, number, isTable, reaches⟩ := references.isTable
  have other := table_ne_page wellFormed references.isTable reachesPage
  have entry : m.ram table i = frame := by
    obtain ⟨positive, below⟩ := (wellFormed.entries table references.isTable i
      references.isEntry).resolve_left references.used
    have target := references.target
    rw [numFrames_eq] at below
    rw [ofWord] at target
    omega
  have swapped : (m.evicted page table i frame).swapFile page = some (m.ram frame) :=
    update_self ..
  rw [pmWrite_address _ (wellFormed.frame_lt reaches) references.isEntry, Option.bind_some,
    pmRestore, if_pos (wellFormed.frame_lt reachesPage)]
  dsimp only
  rw [swapped]
  have ram : ∀ f, update (update (m.evicted page table i frame).ram table
      (update ((m.evicted page table i frame).ram table) i frame)) frame (m.ram frame) f =
        m.ram f := by
    intro f
    by_cases isFrame : f = frame
    · rw [isFrame, update_self]
    · rw [update_of_ne isFrame]
      by_cases isTable : f = table
      · subst isTable
        have row : (m.evicted page f i frame).ram f = update (m.ram f) i 0 := by
          simp [evicted, setEntry, zeroed, other]
        rw [update_self, row, update_idem, ← entry, update_eq_self]
      · rw [update_of_ne isTable]
        exact (update_of_ne isTable _ _).trans (update_of_ne isFrame _ _)
  have swapFile : update (m.evicted page table i frame).swapFile page none = m.swapFile := by
    change update (update m.swapFile page _) page none = m.swapFile
    rw [update_idem, ← absent, update_eq_self]
  exact congrArg some (congrArg₂ Memory.mk (funext ram) swapFile)

/-- **Eviction of the right victim.** Let a page be in a frame, to which an entry
of a table refers. `PMevict` and `createTable` take exactly this page out of the
tree, and leave the words of all others. Once the entry refers to the frame
again, `PMrestore` leaves the memory as it was. -/
theorem evicted_right (wellFormed : m.WellFormed) (holds : m.Holds page table frame)
    (absent : m.swapFile page = none) :
    ∃ m', (m.pmEvict frame page).bind (fun m => createTable m frame table) = some m' ∧
      m'.WellFormed ∧
      (∀ page' table' frame', m'.Holds page' table' frame' ↔
        m.Holds page' table' frame' ∧ page' ≠ page) ∧
      (∀ page' table' frame', m'.Holds page' table' frame' → m'.ram frame' = m.ram frame') ∧
      m'.IsEmpty frame ∧ m'.swapFile = update m.swapFile page (some (m.ram frame)) ∧
      ∃ i < pageSize, ((m'.pmWrite (address table i) frame).bind fun m' =>
        m'.pmRestore frame page) = some m := by
  have reachesPage := holds.reaches
  obtain ⟨number, i, reaches, references, isPage⟩ := holds
  have unlinked := m.evicted_unlinked page table i frame
  have holds_iff : ∀ page' table' frame',
      (m.evicted page table i frame).Holds page' table' frame' ↔
        m.Holds page' table' frame' ∧ page' ≠ page := by
    intro page' table' frame'
    rw [unlinked.holds_iff wellFormed reachesPage references]
    apply and_congr_right
    intro holds'
    exact not_congr (holds'.unique wellFormed ⟨number, i, reaches, references, isPage⟩).symm
  refine ⟨_, evict_run wellFormed reachesPage references absent,
    unlinked.keeps_wellFormed wellFormed reachesPage references, holds_iff, ?_, ?_, rfl, i,
    references.isEntry, ?_⟩
  · intro page' table' frame' after
    obtain ⟨before, different⟩ := (holds_iff page' table' frame').mp after
    have notTable : frame' ≠ table :=
      (table_ne_page wellFormed references.isTable before.reaches).symm
    have notFrame : frame' ≠ frame := fun same => different
      ((before.unique wellFormed ⟨number, i, reaches, references, isPage⟩).mpr same)
    exact (update_of_ne notTable _ _).trans (update_of_ne notFrame _ _)
  · intro j isEntry
    rw [unlinked frame j isEntry, if_pos (.inl rfl)]
  · exact restore_run wellFormed reachesPage references absent

theorem evicted_right_onePage : ∃ m',
    ((branch 4).pmEvict 4 4096).bind (fun m => createTable m 4 3) = some m' ∧ m'.IsEmpty 4 ∧
      ∀ table frame, ¬ m'.Holds 4096 table frame := by
  obtain ⟨m', run, -, holds_iff, -, empty, -⟩ :=
    evicted_right (branch_wellFormed 4) branch_holds rfl
  exact ⟨m', run, empty, fun table frame holds => ((holds_iff _ table frame).mp holds).2 rfl⟩

end Memory

end Os2018.VirtualMemory
