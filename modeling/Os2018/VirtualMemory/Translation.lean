import Os2018.VirtualMemory.Unlinking

/-!
# Virtual addresses

The bits of an address above the offset are the number of its page, and
`getOffset` gives the others. It does not divide by the size of a page, but by
the number of the bits above the offset, and for the widths in the header the two
are equal (`offset_right_iff`).

The tree takes an address whose page is resident to a word of RAM (`At`). In a
well-formed tree this is a word of no table, and no other address has it. So what
is written to one address is read there and nowhere else, and the tree stays
(`write_one_word`). `VMinitialize` leaves no page resident, whatever was in RAM.
-/

set_option autoImplicit false

namespace Os2018.VirtualMemory

open Memory

/-! ## The code -/

/-- `getOffset` with any widths in the header. Both sizes are powers of two, so
that the logarithms are whole numbers. -/
def offsetWith (virtualAddressWidth offsetWidth virtualAddress : Nat) : Nat :=
  virtualAddress % (Nat.log2 (1 <<< virtualAddressWidth) - Nat.log2 (1 <<< offsetWidth))

def getOffset (virtualAddress : Nat) : Nat :=
  offsetWith virtualAddressWidth offsetWidth virtualAddress

def getPageNum (virtualAddress : Nat) : Nat := virtualAddress >>> offsetWidth

def vmInitialize (m : Memory) : Option Memory := clearTable m 0

/-! ## Pages and offsets -/

theorem offsetWith_eq (addressWidth width virtualAddress : Nat) :
    offsetWith addressWidth width virtualAddress = virtualAddress % (addressWidth - width) := by
  rw [offsetWith, Nat.one_shiftLeft, Nat.one_shiftLeft, Nat.log2_two_pow, Nat.log2_two_pow]

/-- **The widths for which the offset is right.** -/
theorem offset_right_iff {addressWidth width : Nat} (wider : width < addressWidth) :
    (∀ virtualAddress < 2 ^ addressWidth,
        offsetWith addressWidth width virtualAddress = virtualAddress % 2 ^ width) ↔
      addressWidth - width = 2 ^ width := by
  simp only [offsetWith_eq]
  constructor
  · intro right
    have small : addressWidth - width < 2 ^ addressWidth :=
      Nat.lt_of_le_of_lt (Nat.sub_le ..) Nat.lt_two_pow_self
    have size : 2 ^ width < 2 ^ addressWidth := Nat.pow_lt_pow_right Nat.one_lt_two wider
    refine Nat.dvd_antisymm (Nat.dvd_of_mod_eq_zero ?_) (Nat.dvd_of_mod_eq_zero ?_)
    · rw [right _ size, Nat.mod_self]
    · rw [← right _ small, Nat.mod_self]
  · intro same virtualAddress _
    rw [same]

theorem getOffset_eq (virtualAddress : Nat) :
    getOffset virtualAddress = virtualAddress % pageSize :=
  offsetWith_eq ..

theorem getPageNum_eq (virtualAddress : Nat) :
    getPageNum virtualAddress = virtualAddress / pageSize :=
  Nat.shiftRight_eq_div_pow ..

theorem getOffset_lt (virtualAddress : Nat) : getOffset virtualAddress < pageSize :=
  Nat.mod_lt _ (by decide)

/-- The page and the offset determine the address. -/
theorem address_unique {first second : Nat} :
    getPageNum first = getPageNum second ∧ getOffset first = getOffset second ↔ first = second := by
  constructor
  · rintro ⟨samePage, sameOffset⟩
    rw [getPageNum_eq, getPageNum_eq] at samePage
    rw [getOffset_eq, getOffset_eq] at sameOffset
    rw [← Nat.div_add_mod first pageSize, samePage, sameOffset, Nat.div_add_mod]
  · rintro rfl
    exact ⟨rfl, rfl⟩

/-! ## Memories with the same tables -/

namespace Memory

variable {m m' : Memory}

/-- The tables of the tree have the same entries. -/
def SameTables (m m' : Memory) : Prop :=
  ∀ table, m.IsTable table → ∀ i < pageSize, m'.ram table i = m.ram table i

theorem SameTables.reaches_iff (same : m.SameTables m') {depth number frame : Nat} :
    m'.Reaches depth number frame ↔ m.Reaches depth number frame := by
  constructor
  · intro reaches
    induction reaches with
    | root => exact .root
    | entry table isTable isEntry used ih =>
        have value := same _ ⟨_, _, isTable, ih⟩ _ isEntry
        rw [value] at used ⊢
        exact ih.entry isTable isEntry used
  · intro reaches
    induction reaches with
    | root => exact .root
    | entry table isTable isEntry used ih =>
        have value := same _ ⟨_, _, isTable, table⟩ _ isEntry
        rw [← value] at used ⊢
        exact ih.entry isTable isEntry used

theorem SameTables.isTable_iff (same : m.SameTables m') {table : Nat} :
    m'.IsTable table ↔ m.IsTable table :=
  exists_congr fun _ => exists_congr fun _ => and_congr_right fun _ => same.reaches_iff

theorem SameTables.references_iff (same : m.SameTables m') {table i frame : Nat} :
    m'.References table i frame ↔ m.References table i frame := by
  constructor
  · rintro ⟨isTable, isEntry, used, target⟩
    have before := same.isTable_iff.mp isTable
    have value := same table before i isEntry
    exact ⟨before, isEntry, value ▸ used, value ▸ target⟩
  · rintro ⟨isTable, isEntry, used, target⟩
    have value := same table isTable i isEntry
    exact ⟨same.isTable_iff.mpr isTable, isEntry, value ▸ used, value ▸ target⟩

theorem SameTables.holds_iff (same : m.SameTables m') {page table frame : Nat} :
    m'.Holds page table frame ↔ m.Holds page table frame :=
  exists_congr fun _ => exists_congr fun _ =>
    and_congr same.reaches_iff (and_congr_left fun _ => same.references_iff)

theorem SameTables.wellFormed (same : m.SameTables m') (wellFormed : m.WellFormed) :
    m'.WellFormed where
  entries := by
    intro table isTable i isEntry
    have before := same.isTable_iff.mp isTable
    rw [same table before i isEntry]
    exact wellFormed.entries table before i isEntry
  once := by
    intro table i table' i' frame first second
    exact wellFormed.once table i table' i' frame (same.references_iff.mp first)
      (same.references_iff.mp second)

/-! ## Words of resident pages -/

/-- The tree takes the virtual address to the physical one. -/
def At (m : Memory) (virtualAddress physicalAddress : Nat) : Prop :=
  ∃ table frame, m.Holds (getPageNum virtualAddress) table frame ∧
    physicalAddress = address frame (getOffset virtualAddress)

variable {page table frame table' frame' first second : Nat}

/-- The frame of a page is no table. -/
theorem Holds.not_isTable (wellFormed : m.WellFormed) (holds : m.Holds page table frame) :
    ¬ m.IsTable frame := by
  rintro ⟨depth, number, isTable, reaches⟩
  exact absurd (wellFormed.same_place reaches holds.reaches).1 (Nat.ne_of_lt isTable)

/-- A word of a page frame belongs to one address. -/
theorem Holds.word_unique (wellFormed : m.WellFormed)
    (holds : m.Holds (getPageNum first) table frame)
    (holds' : m.Holds (getPageNum second) table' frame') :
    frame = frame' ∧ getOffset first = getOffset second ↔ first = second := by
  exact (and_congr_left fun _ => (holds.unique wellFormed holds').symm).trans address_unique

/-- Writing a word of a page frame leaves the tables. -/
theorem Holds.sameTables_setEntry (wellFormed : m.WellFormed) (holds : m.Holds page table frame)
    (i : Nat) (value : Int) : m.SameTables (m.setEntry frame i value) := by
  intro other isTable j isEntry
  have isOther : other ≠ frame := by
    rintro rfl
    exact holds.not_isTable wellFormed isTable
  rw [setEntry_ram, if_neg fun same => isOther same.1]

/-- **A write changes one word.** In a well-formed tree, `PMwrite` to the word of
a virtual address succeeds, no table entry changes, every page stays where it
was, and every address that is in memory has the word it had, but for the one that
was written. -/
theorem write_one_word (wellFormed : m.WellFormed) {virtualAddress physicalAddress : Nat}
    (isAt : m.At virtualAddress physicalAddress) (value : Int) :
    ∃ m', m.pmWrite physicalAddress value = some m' ∧ m.SameTables m' ∧
      (∀ table, m'.IsTable table ↔ m.IsTable table) ∧ m'.WellFormed ∧ m'.swapFile = m.swapFile ∧
      (∀ virtual physical, m'.At virtual physical ↔ m.At virtual physical) ∧
      ∀ virtual physical, m.At virtual physical →
        m'.pmRead physical =
          if virtual = virtualAddress then some value else m.pmRead physical := by
  obtain ⟨table, frame, holds, rfl⟩ := isAt
  have isFrame := wellFormed.frame_lt holds.reaches
  have same := holds.sameTables_setEntry wellFormed (getOffset virtualAddress) value
  refine ⟨m.setEntry frame (getOffset virtualAddress) value,
    m.pmWrite_address isFrame (getOffset_lt _) value, same, fun _ => same.isTable_iff,
    same.wellFormed wellFormed, rfl, fun virtual physical => ?_, ?_⟩
  · exact exists_congr fun _ => exists_congr fun _ => and_congr_left fun _ => same.holds_iff
  · rintro virtual physical ⟨table', frame', holds', rfl⟩
    have isFrame' := wellFormed.frame_lt holds'.reaches
    rw [pmRead_address _ isFrame' (getOffset_lt _), pmRead_address _ isFrame' (getOffset_lt _),
      setEntry_ram]
    by_cases here : virtual = virtualAddress
    · rw [if_pos ((holds'.word_unique wellFormed holds).mpr here), if_pos here]
    · rw [if_neg fun word => here ((holds'.word_unique wellFormed holds).mp word), if_neg here]

/-- A word of the one page of `branch 4`. -/
theorem write_one_word_branch : ∃ m', (branch 4).pmWrite 69 7 = some m' ∧ m'.WellFormed ∧
    m'.At 65541 69 ∧ m'.pmRead 69 = some 7 := by
  have isAt : (branch 4).At 65541 69 := ⟨3, 4, branch_holds, rfl⟩
  obtain ⟨m', written, -, -, wellFormed, -, places, words⟩ :=
    write_one_word (branch_wellFormed 4) isAt 7
  exact ⟨m', written, wellFormed, (places _ _).mpr isAt, (words _ _ isAt).trans (if_pos rfl)⟩

/-- `VMinitialize` makes an empty tree of any memory. -/
theorem vmInitialize_empty (m : Memory) : ∃ m', vmInitialize m = some m' ∧ m'.WellFormed ∧
    m'.IsEmpty 0 ∧ m'.swapFile = m.swapFile ∧ (∀ frame ≠ 0, m'.ram frame = m.ram frame) ∧
      ∀ virtual physical, ¬ m'.At virtual physical := by
  have rootEmpty : (m.zeroed 0).IsEmpty 0 := fun i isEntry => by
    rw [zeroed_ram _ _ isEntry, if_pos rfl]
  have nothing : ∀ table i frame, ¬ (m.zeroed 0).References table i frame := by
    rintro table i frame ⟨⟨depth, number, -, reaches⟩, isEntry, used, -⟩
    obtain rfl := reaches_of_isEmpty_root rootEmpty reaches
    exact used (rootEmpty i isEntry)
  refine ⟨m.zeroed 0, clearTable_eq (by decide), ⟨?_, ?_⟩, rootEmpty, rfl,
    fun frame other => Function.update_of_ne other .., ?_⟩
  · rintro table ⟨depth, number, -, reaches⟩ i isEntry
    obtain rfl := reaches_of_isEmpty_root rootEmpty reaches
    exact .inl (rootEmpty i isEntry)
  · exact fun table i _ _ frame first => absurd first (nothing table i frame)
  · rintro virtual physical ⟨table, frame, ⟨number, i, -, references, -⟩, -⟩
    exact nothing table i frame references

end Memory

end Os2018.VirtualMemory
