import Os2018.VirtualMemory.PageTree

/-!
# Eviction

`find_frameToEvict` goes through the tree with the number that the entries
spell, and takes this number for a frame when it reads. So it leaves the RAM
before it comes to a page, or goes round at page 0, and unless page 0 is to be
avoided it names no page (`findFrameToEvict_names_nothing`).

It returns no frame in any case: the parameter `max_phys_fr` is never assigned.
The frame that `frameEvicter` writes to the swap file and clears is the root
table's, whatever the memory holds (`findFrameToEvict_maxPhysFr`), and no page is
ever evicted (`not_evictsFarthest`).
-/

set_option autoImplicit false

namespace Os2018.VirtualMemory

open Function Memory

variable {m : Memory} {pageNumber : Nat} {avoid : Fin tablesDepth → Nat}

/-! ## Statement -/

/-- The distance of two pages on the circle of all pages. -/
def cyclicDistance (page other : Nat) : Nat :=
  let distance := (page - other) + (other - page)
  min distance (numPages - distance)

/-- The page is in the frame, and the entry of the table refers to it. -/
def Memory.Holds (m : Memory) (page table frame : Nat) : Prop :=
  ∃ number i, m.Reaches (tablesDepth - 1) number table ∧ m.References table i frame ∧
    page = number * pageSize + i

/-- A page that may be evicted for another one. -/
structure Evictable (m : Memory) (pageNumber : Nat) (avoid : Fin tablesDepth → Nat)
    (page : Nat) : Prop where
  resident : ∃ table frame, m.Holds page table frame
  notAvoided : ∀ j, avoid j ≠ page
  distant : 0 < cyclicDistance pageNumber page

/-- The search ends and names a page as far as can be, its frame and its table;
`frameEvicter` moves the page to the swap file and clears the entry. -/
structure EvictsFarthest (m : Memory) (pageNumber : Nat) (avoid : Fin tablesDepth → Nat)
    (fuel : Nat) (victim : Victim) (m' : Memory) : Prop where
  search : findFrameToEvict m pageNumber avoid fuel 0 0 ⟨0, 0, 0, 0⟩ 0 = some victim
  evictable : Evictable m pageNumber avoid victim.maxPage
  farthest : ∀ page, Evictable m pageNumber avoid page →
    cyclicDistance pageNumber page ≤ cyclicDistance pageNumber victim.maxPage
  holds : m.Holds victim.maxPage victim.maxparent victim.maxPhysFr
  evicts : frameEvicter m pageNumber avoid fuel = some (victim.maxPage, m')
  swapped : m'.swapFile = update m.swapFile victim.maxPage (some (m.ram victim.maxPhysFr))
  cleared : ∀ frame ≠ victim.maxPhysFr, ∀ i < pageSize, m'.ram frame i =
    if frame = victim.maxparent ∧ ofWord (m.ram frame i) = victim.maxPhysFr then 0
    else m.ram frame i

/-! ## The search -/

/-- The loop leaves `max_phys_fr` alone: what the recursive call gets is another
variable. -/
theorem evictEntries_maxPhysFr {below : Nat → Victim → Option Victim} {currPage : Nat}
    {entries : List Nat} {victim found : Victim}
    (run : evictEntries m below currPage entries victim = some found) :
    found.maxPhysFr = victim.maxPhysFr := by
  induction entries generalizing victim with
  | nil =>
      cases run
      rfl
  | cons i entries ih =>
      obtain ⟨currVal, -, rest⟩ := Option.bind_eq_some_iff.mp run
      split_ifs at rest with used
      · obtain ⟨deeper, -, later⟩ := Option.bind_eq_some_iff.mp rest
        have unchanged := ih later
        exact unchanged
      · exact ih rest

theorem findFrameToEvict_maxPhysFr {fuel currPage parent currDepth : Nat} {victim found : Victim}
    (run : findFrameToEvict m pageNumber avoid fuel currPage parent victim currDepth =
      some found) : found.maxPhysFr = victim.maxPhysFr := by
  cases fuel with
  | zero => cases run
  | succ fuel =>
      rw [findFrameToEvict] at run
      split_ifs at run
      · cases run
        rfl
      · have unchanged := evictEntries_maxPhysFr run
        exact unchanged
      · exact evictEntries_maxPhysFr run

/-! ## What the search reads -/

/-- A number that the entries on a path of the length spell, and that does not
begin with a zero. -/
structure Spelled (length number : Nat) : Prop where
  below : number < pageSize ^ length
  leading : 0 < length → pageSize ^ (length - 1) ≤ number

theorem Spelled.next {length number i : Nat} (spelled : Spelled length number)
    (short : length < tablesDepth) (isEntry : i < pageSize) (notZero : length = 0 → 0 < i) :
    Spelled (length + 1) (wrap (wrap (number <<< offsetWidth) + i)) := by
  have below := spelled.below
  have bound : pageSize ^ length ≤ pageSize ^ (tablesDepth - 1) :=
    Nat.pow_le_pow_right (by decide) (Nat.le_sub_one_of_lt short)
  rw [show pageSize ^ (tablesDepth - 1) = 4096 from rfl] at bound
  rw [pageSize_eq] at isEntry
  have shifted : number <<< offsetWidth = number * 16 := Nat.shiftLeft_eq ..
  rw [shifted, wrap_of_lt (n := number * 16) (by omega), wrap_of_lt (by omega)]
  constructor
  · rw [Nat.pow_succ, pageSize_eq] at *
    omega
  · intro _
    cases length with
    | zero => exact Nat.le_add_left_of_le (notZero rfl)
    | succ length =>
        have leading := spelled.leading (Nat.succ_pos length)
        rw [Nat.add_sub_cancel] at leading ⊢
        rw [Nat.pow_succ, pageSize_eq] at *
        omega

/-- A loop whose recursive calls change nothing changes nothing. -/
theorem evictEntries_eq {below : Nat → Victim → Option Victim} {currPage : Nat}
    {entries : List Nat} {victim found : Victim}
    (same : ∀ i ∈ entries, m.pmRead (address currPage i) ≠ some 0 → ∀ victim found,
      below (wrap (wrap (currPage <<< offsetWidth) + i)) victim = some found → found = victim)
    (run : evictEntries m below currPage entries victim = some found) : found = victim := by
  induction entries generalizing victim with
  | nil =>
      cases run
      rfl
  | cons i entries ih =>
      rw [List.forall_mem_cons] at same
      obtain ⟨currVal, read, rest⟩ := Option.bind_eq_some_iff.mp run
      split_ifs at rest with used
      · obtain ⟨deeper, isDeeper, later⟩ := Option.bind_eq_some_iff.mp rest
        have notZero : m.pmRead (address currPage i) ≠ some 0 := by
          rw [read]
          exact fun zero => used (Option.some.inj zero)
        rw [same.1 notZero _ _ isDeeper] at later
        exact ih same.2 later
      · exact ih same.2 rest

/-- There are no words at the numbers of pages, save for those that begin with a
zero. -/
theorem pmRead_spelled {number i : Nat} (spelled : Spelled tablesDepth number)
    (isEntry : i < pageSize) : m.pmRead (address number i) = none := by
  have below := spelled.below
  have leading := spelled.leading (by decide)
  rw [show pageSize ^ tablesDepth = 65536 from rfl] at below
  rw [show pageSize ^ (tablesDepth - 1) = 4096 from rfl] at leading
  rw [pageSize_eq] at isEntry
  rw [pmRead, address, pageSize_eq, wrap_of_lt (by omega)]
  exact if_neg (by rw [ramSize_eq]; omega)

theorem evictEntries_fails {below : Nat → Victim → Option Victim} {currPage : Nat}
    {victim : Victim} (fails : m.pmRead (address currPage 0) = none) :
    evictEntries m below currPage (List.range pageSize) victim = none := by
  rw [show List.range pageSize = 0 :: List.range' 1 15 from rfl, evictEntries, fails]
  rfl

/-- Where the root has no first entry, the search comes back as it was
called. -/
theorem findFrameToEvict_spelled (unused : m.ram 0 0 = 0)
    {fuel number parent depth : Nat} {victim found : Victim} (spelled : Spelled depth number)
    (inTree : depth ≤ tablesDepth)
    (run : findFrameToEvict m pageNumber avoid fuel number parent victim depth = some found) :
    found = victim := by
  induction fuel generalizing number parent depth victim found with
  | zero => cases run
  | succ fuel ih =>
      rw [findFrameToEvict] at run
      rcases Nat.eq_or_lt_of_le inTree with isPage | isTable
      · -- A page is read as if it were a table.
        subst isPage
        have fails : m.pmRead (address number 0) = none := pmRead_spelled spelled (by decide)
        split_ifs at run
        · cases run
          rfl
        · cases (evictEntries_fails fails).symm.trans run
        · cases (evictEntries_fails fails).symm.trans run
      · rw [if_neg fun page => Nat.ne_of_lt isTable page.1,
          if_neg fun page => Nat.ne_of_lt isTable page.1] at run
        refine evictEntries_eq ?_ run
        intro i member used victim found deeper
        have isEntry := List.mem_range.mp member
        have notZero : depth = 0 → 0 < i := by
          rintro rfl
          have isRoot : number = 0 := Nat.lt_one_iff.mp spelled.below
          refine Nat.pos_of_ne_zero fun isFirst => used ?_
          rw [isRoot, isFirst, m.pmRead_address (by decide) (by decide), unused]
        have deeperDepth : wrap (depth + 1) = depth + 1 := by
          rw [tablesDepth_eq] at isTable
          exact wrap_of_lt (by omega)
        rw [deeperDepth] at deeper
        exact ih (spelled.next isTable isEntry notZero) isTable deeper

/-- Where it has one, the search goes on with page 0 for ever, unless it is to be
avoided. -/
theorem findFrameToEvict_loops (used : m.ram 0 0 ≠ 0) (notAvoided : ∀ j, avoid j ≠ 0)
    (fuel parent depth : Nat) (victim : Victim) :
    findFrameToEvict m pageNumber avoid fuel 0 parent victim depth = none := by
  induction fuel generalizing parent depth victim with
  | zero => rfl
  | succ fuel ih =>
      rw [findFrameToEvict, if_neg fun page => page.2.elim notAvoided]
      rw [show List.range pageSize = 0 :: List.range' 1 15 from rfl, evictEntries,
        m.pmRead_address (by decide) (by decide)]
      simp [used, ih, wrap]

/-- **The search.** Unless page 0 is to be avoided, the search names no page: it
ends as it began, if it ends. -/
theorem findFrameToEvict_names_nothing (notAvoided : ∀ j, avoid j ≠ 0) {fuel : Nat}
    {victim : Victim}
    (run : findFrameToEvict m pageNumber avoid fuel 0 0 ⟨0, 0, 0, 0⟩ 0 = some victim) :
    victim = ⟨0, 0, 0, 0⟩ := by
  by_cases used : m.ram 0 0 = 0
  · have root : Spelled 0 0 := ⟨by decide, fun many => absurd many (Nat.lt_irrefl 0)⟩
    exact findFrameToEvict_spelled used root (Nat.zero_le _) run
  · cases (findFrameToEvict_loops used notAvoided fuel 0 0 ⟨0, 0, 0, 0⟩).symm.trans run

/-- Page 4096 is in memory, and is not found. -/
theorem findFrameToEvict_names_nothing_onePage : ∃ victim,
    findFrameToEvict (branch 4) 0 (fun _ => 1) 3 0 0 ⟨0, 0, 0, 0⟩ 0 = some victim ∧
      victim = ⟨0, 0, 0, 0⟩ := by
  obtain ⟨victim, run⟩ : ∃ victim,
      findFrameToEvict (branch 4) 0 (fun _ => 1) 3 0 0 ⟨0, 0, 0, 0⟩ 0 = some victim :=
    ⟨_, rfl⟩
  exact ⟨victim, run, findFrameToEvict_names_nothing (by decide) run⟩

/-! ## The frame -/

/-- The root is in no entry, and so is not the frame of a page. -/
theorem EvictsFarthest.not_wellFormed {fuel : Nat} {victim : Victim} {m' : Memory}
    (evicted : EvictsFarthest m pageNumber avoid fuel victim m') : ¬ m.WellFormed := by
  intro wellFormed
  obtain ⟨number, i, -, references, -⟩ := evicted.holds
  have isFrame :=
    (wellFormed.frame_of_entry references.isTable references.isEntry references.used).1
  rw [references.target, findFrameToEvict_maxPhysFr evicted.search] at isFrame
  exact absurd isFrame (Nat.lt_irrefl 0)

/-- **Eviction.** In no well-formed memory and for no page is the right frame
evicted: the search always gives frame 0, and the root table is no page. -/
theorem not_evictsFarthest (wellFormed : m.WellFormed) (pageNumber : Nat)
    (avoid : Fin tablesDepth → Nat) :
    ¬ ∃ fuel victim m', EvictsFarthest m pageNumber avoid fuel victim m' := by
  rintro ⟨fuel, victim, m', evicted⟩
  exact evicted.not_wellFormed wellFormed

theorem not_evictsFarthest_onePage :
    ¬ ∃ fuel victim m', EvictsFarthest (branch 4) 0 (fun _ => 0) fuel victim m' :=
  not_evictsFarthest (branch_wellFormed 4) 0 fun _ => 0

/-- Page 4096 is in frame 4, with table 3 above it. -/
theorem branch_holds : (branch 4).Holds (16 ^ 3) 3 4 := by
  have first : (branch 4).Reaches 1 1 1 :=
    Reaches.root.entry (i := 1) (by decide) (by decide) (by decide)
  have second : (branch 4).Reaches 2 16 2 :=
    first.entry (i := 0) (by decide) (by decide) (by decide)
  have third : (branch 4).Reaches 3 256 3 :=
    second.entry (i := 0) (by decide) (by decide) (by decide)
  refine ⟨256, 0, third, ⟨⟨3, 256, by decide, third⟩, by decide, by decide, by decide⟩, by decide⟩

/-- **The root is evicted.** With one page in memory, which is far from the page
wanted, the root table goes to the swap file as page 0 and is cleared. -/
theorem root_evicted :
    (branch 4).WellFormed ∧ Evictable (branch 4) 0 (fun _ => 0) (16 ^ 3) ∧
      (∃ m', frameEvicter (branch 4) 0 (fun _ => 0) 3 = some (0, m') ∧ m'.IsEmpty 0 ∧
        (m'.swapFile 0).isSome) ∧
      ¬ ∃ fuel victim m', EvictsFarthest (branch 4) 0 (fun _ => 0) fuel victim m' := by
  refine ⟨branch_wellFormed 4, ⟨⟨3, 4, branch_holds⟩, by decide, by decide⟩, ?_, ?_⟩
  · refine ⟨_, rfl, by decide, by decide⟩
  · rintro ⟨fuel, victim, m', evicted⟩
    exact evicted.not_wellFormed (branch_wellFormed 4)

end Os2018.VirtualMemory
