import Os2018.Library.Transition
import Os2018.VirtualMemory.Memory

/-!
# Pages in and out of the RAM

`PMevict` and `PMrestore` move pages between frames and the swap file, and take
their callers' word for which page is in which frame. A caller that keeps this
straight reads and writes a page in the frame it is in, evicts it from there, and
restores it to a frame that is not in use.

For such a caller the frames do not matter. No assertion fails, and what it reads
from a page is what it wrote there last, or what the page held before, wherever
the page has been in the meantime (`swapping_transparent`).
-/

set_option autoImplicit false

namespace Os2018.VirtualMemory

open Function Transition

/-! ## A caller of the physical memory -/

/-- The memory, and the page that the caller has in each frame. -/
structure Paged where
  memory : Memory
  pageOf : Nat → Option Nat

inductive Access where
  | read (page frame i : Nat)
  | write (page frame i : Nat) (value : Int)
  | evict (page frame : Nat)
  | restore (page frame : Nat)
  deriving DecidableEq, Repr

namespace Paged

/-- Nothing has been used yet. -/
def initial : Paged := ⟨initialMemory, fun _ => none⟩

/-- What the physical memory does. -/
def next (s : Paged) : Access → Option Paged
  | .read _ frame i => (s.memory.pmRead (address frame i)).map fun _ => s
  | .write _ frame i value =>
      (s.memory.pmWrite (address frame i) value).map fun memory => { s with memory }
  | .evict page frame =>
      (s.memory.pmEvict frame page).map fun memory =>
        ⟨memory, update s.pageOf frame none⟩
  | .restore page frame =>
      (s.memory.pmRestore frame page).map fun memory =>
        ⟨memory, update s.pageOf frame (some page)⟩

/-- The caller uses the page where it is, and a frame for one page at a time. -/
def Disciplined (s : Paged) : Access → Prop
  | .read page frame i => s.pageOf frame = some page ∧ i < pageSize
  | .write page frame i _ => s.pageOf frame = some page ∧ i < pageSize
  | .evict page frame => s.pageOf frame = some page
  | .restore page frame => frame < numFrames ∧ page < numPages ∧ s.pageOf frame = none ∧
      ∀ other, s.pageOf other ≠ some page

/-- The words of a page, in its frame or in the swap file. -/
def Contents (s : Paged) (page : Nat) (words : Page) : Prop :=
  (∃ frame, s.pageOf frame = some page ∧ s.memory.ram frame = words) ∨
    s.memory.swapFile page = some words

/-- The words of a page after the writes of a run. -/
def written (page : Nat) : List Access → Page → Page
  | [], words => words
  | .write other _ i value :: rest, words =>
      written page rest (if other = page then update words i value else words)
  | _ :: rest, words => written page rest words

/-! ## Steps -/

/-- A page is in one place. -/
structure Exclusive (s : Paged) : Prop where
  inRange : ∀ frame page, s.pageOf frame = some page → frame < numFrames ∧ page < numPages
  notSwapped : ∀ frame page, s.pageOf frame = some page → s.memory.swapFile page = none
  once : ∀ frame frame' page, s.pageOf frame = some page → s.pageOf frame' = some page →
    frame = frame'

variable {s t : Paged} {page frame : Nat} {words : Page} {access : Access}

theorem exclusive_initial : Exclusive initial where
  inRange := nofun
  notSwapped := nofun
  once := nofun

/-- **No assertion fails.** -/
theorem Exclusive.next_some (exclusive : Exclusive s) (disciplined : s.Disciplined access) :
    ∃ t, s.next access = some t := by
  cases access with
  | read page frame i =>
      obtain ⟨isPage, isEntry⟩ := disciplined
      have isFrame := (exclusive.inRange frame page isPage).1
      exact ⟨s, by rw [next, s.memory.pmRead_address isFrame isEntry]; rfl⟩
  | write page frame i value =>
      obtain ⟨isPage, isEntry⟩ := disciplined
      have isFrame := (exclusive.inRange frame page isPage).1
      exact ⟨_, by rw [next, s.memory.pmWrite_address isFrame isEntry]; rfl⟩
  | evict page frame =>
      obtain ⟨isFrame, inRange⟩ := exclusive.inRange frame page disciplined
      have absent : (s.memory.swapFile page).isNone := by
        rw [exclusive.notSwapped frame page disciplined]
        rfl
      exact ⟨_, by rw [next, Memory.pmEvict, if_pos ⟨absent, isFrame, inRange⟩]; rfl⟩
  | restore page frame =>
      obtain ⟨isFrame, -⟩ := disciplined
      rw [next, Memory.pmRestore, if_pos isFrame]
      cases s.memory.swapFile page with
      | none => exact ⟨_, rfl⟩
      | some words => exact ⟨_, rfl⟩

/-- What the accesses of such a caller do. -/
inductive Moved (s : Paged) : Access → Paged → Prop where
  | read {page frame i : Nat} : Moved s (.read page frame i) s
  | write {page frame i : Nat} {value : Int} (isPage : s.pageOf frame = some page) :
      Moved s (.write page frame i value) { s with
        memory := { s.memory with
          ram := update s.memory.ram frame (update (s.memory.ram frame) i value) } }
  | evict {page frame : Nat} (isPage : s.pageOf frame = some page) :
      Moved s (.evict page frame)
        ⟨{ s.memory with
            swapFile := update s.memory.swapFile page (some (s.memory.ram frame)) },
          update s.pageOf frame none⟩
  | start {page frame : Nat} (absent : s.memory.swapFile page = none) :
      Moved s (.restore page frame) { s with pageOf := update s.pageOf frame (some page) }
  | restore {page frame : Nat} {words : Page} (swapped : s.memory.swapFile page = some words) :
      Moved s (.restore page frame)
        ⟨⟨update s.memory.ram frame words, update s.memory.swapFile page none⟩,
          update s.pageOf frame (some page)⟩

theorem Exclusive.moved_of_next (exclusive : Exclusive s) (disciplined : s.Disciplined access)
    (step : s.next access = some t) : Moved s access t := by
  cases access with
  | read page frame i =>
      obtain ⟨_, -, rfl⟩ := Option.map_eq_some_iff.mp step
      exact .read
  | write page frame i value =>
      obtain ⟨isPage, isEntry⟩ := disciplined
      have isFrame := (exclusive.inRange frame page isPage).1
      rw [next, s.memory.pmWrite_address isFrame isEntry] at step
      cases step
      exact .write isPage
  | evict page frame =>
      obtain ⟨memory, evicted, rfl⟩ := Option.map_eq_some_iff.mp step
      rw [Memory.pmEvict] at evicted
      split_ifs at evicted
      cases evicted
      exact .evict disciplined
  | restore page frame =>
      obtain ⟨memory, restored, rfl⟩ := Option.map_eq_some_iff.mp step
      rw [Memory.pmRestore, if_pos disciplined.1] at restored
      cases swapped : s.memory.swapFile page with
      | none =>
          rw [swapped] at restored
          cases restored
          exact .start swapped
      | some words =>
          rw [swapped] at restored
          cases restored
          exact .restore swapped

theorem update_eq_some {pageOf : Nat → Option Nat} {other : Nat} {value : Option Nat} :
    update pageOf frame value other = some page ↔
      (other = frame ∧ value = some page) ∨ (other ≠ frame ∧ pageOf other = some page) := by
  by_cases same : other = frame
  · subst same
    simp
  · simp [same]

/-- A page that is brought in is in the frame, and no longer in the swap file. -/
theorem Exclusive.restored (exclusive : Exclusive s)
    (disciplined : s.Disciplined (.restore page frame)) {memory : Memory}
    (absent : memory.swapFile page = none)
    (others : ∀ other ≠ page, memory.swapFile other = s.memory.swapFile other) :
    Exclusive ⟨memory, update s.pageOf frame (some page)⟩ := by
  obtain ⟨isFrame, inRange, -, notElsewhere⟩ := disciplined
  refine ⟨fun other page' isPage => ?_, fun other page' isPage => ?_,
    fun other other' page' isPage isPage' => ?_⟩
  · rcases update_eq_some.mp isPage with ⟨rfl, same⟩ | ⟨-, isPage⟩
    · exact Option.some.inj same ▸ ⟨isFrame, inRange⟩
    · exact exclusive.inRange other page' isPage
  · rcases update_eq_some.mp isPage with ⟨-, same⟩ | ⟨-, isPage⟩
    · exact Option.some.inj same ▸ absent
    · have different : page' ≠ page := fun same => notElsewhere other (same ▸ isPage)
      exact (others page' different).trans (exclusive.notSwapped other page' isPage)
  · rcases update_eq_some.mp isPage with ⟨isFrame, same⟩ | ⟨-, old⟩
    · rcases update_eq_some.mp isPage' with ⟨isFrame', -⟩ | ⟨-, old'⟩
      · exact isFrame.trans isFrame'.symm
      · exact absurd (Option.some.inj same ▸ old') (notElsewhere other')
    · rcases update_eq_some.mp isPage' with ⟨-, same⟩ | ⟨-, old'⟩
      · exact absurd (Option.some.inj same ▸ old) (notElsewhere other)
      · exact exclusive.once other other' page' old old'

theorem Exclusive.moved (exclusive : Exclusive s) (disciplined : s.Disciplined access)
    (moved : Moved s access t) : Exclusive t := by
  cases moved with
  | read => exact exclusive
  | write _ => exact ⟨exclusive.inRange, exclusive.notSwapped, exclusive.once⟩
  | @evict page frame isPage =>
      have stays : ∀ other page', update s.pageOf frame none other = some page' →
          s.pageOf other = some page' ∧ page' ≠ page := by
        intro other page' isPage'
        obtain ⟨-, impossible⟩ | ⟨different, isPage'⟩ := update_eq_some.mp isPage'
        · cases impossible
        · exact ⟨isPage', fun same =>
            different (exclusive.once other frame page (same ▸ isPage') isPage)⟩
      refine ⟨fun other page' isPage' => exclusive.inRange other page' (stays _ _ isPage').1,
        fun other page' isPage' => ?_, fun other other' page' isPage' isPage'' =>
          exclusive.once other other' page' (stays _ _ isPage').1 (stays _ _ isPage'').1⟩
      obtain ⟨isPage', different⟩ := stays other page' isPage'
      exact (update_of_ne different _ _).trans (exclusive.notSwapped other page' isPage')
  | start absent => exact exclusive.restored disciplined absent fun _ _ => rfl
  | restore _ =>
      exact exclusive.restored disciplined (update_self ..) fun _ different =>
        update_of_ne different _ _

/-- The words of a page go where the page goes. -/
theorem Exclusive.contents (exclusive : Exclusive s) (disciplined : s.Disciplined access)
    (moved : Moved s access t) (contents : s.Contents page words) :
    t.Contents page (written page [access] words) := by
  cases moved with
  | read => exact contents
  | @write other frame i value isPage =>
      rcases contents with ⟨frame', isPage', rfl⟩ | swapped
      · refine .inl ⟨frame', isPage', ?_⟩
        by_cases same : other = page
        · subst same
          obtain rfl := exclusive.once frame frame' other isPage isPage'
          simp [written]
        · have different : frame' ≠ frame := by
            rintro rfl
            exact same (Option.some.inj (isPage.symm.trans isPage'))
          simp [written, same, different]
      · have different : other ≠ page := by
          rintro rfl
          cases swapped.symm.trans (exclusive.notSwapped frame other isPage)
        exact .inr (by rw [written, if_neg different]; exact swapped)
  | @evict other frame isPage =>
      rcases contents with ⟨frame', isPage', rfl⟩ | swapped
      · by_cases same : frame' = frame
        · subst same
          obtain rfl : other = page := Option.some.inj (isPage.symm.trans isPage')
          exact .inr (update_self ..)
        · exact .inl ⟨frame', (update_of_ne same _ _).trans isPage', rfl⟩
      · have different : page ≠ other := by
          rintro rfl
          cases swapped.symm.trans (exclusive.notSwapped frame page isPage)
        exact .inr ((update_of_ne different _ _).trans swapped)
  | @start other frame absent =>
      obtain ⟨-, -, unused, -⟩ := disciplined
      rcases contents with ⟨frame', isPage', rfl⟩ | swapped
      · have different : frame' ≠ frame := by
          rintro rfl
          cases unused.symm.trans isPage'
        exact .inl ⟨frame', (update_of_ne different _ _).trans isPage', rfl⟩
      · exact .inr swapped
  | @restore other frame words' isSwapped =>
      obtain ⟨-, -, unused, -⟩ := disciplined
      rcases contents with ⟨frame', isPage', rfl⟩ | swapped
      · have different : frame' ≠ frame := by
          rintro rfl
          cases unused.symm.trans isPage'
        exact .inl ⟨frame', (update_of_ne different _ _).trans isPage', update_of_ne different _ _⟩
      · by_cases same : page = other
        · subst same
          obtain rfl : words = words' := Option.some.inj (swapped.symm.trans isSwapped)
          exact .inl ⟨frame, update_self .., update_self ..⟩
        · exact .inr ((update_of_ne same _ _).trans swapped)

/-! ## Runs -/

theorem written_cons (access : Access) (rest : List Access) (words : Page) :
    written page (access :: rest) words = written page rest (written page [access] words) := by
  cases access <;> rfl

theorem Exclusive.exec (exclusive : Exclusive s) {accesses : List Access}
    (run : exec next s accesses = some t) (disciplined : StepsMeet next Disciplined s accesses)
    (contents : s.Contents page words) :
    Exclusive t ∧ t.Contents page (written page accesses words) := by
  induction accesses generalizing s words with
  | nil =>
      cases run
      exact ⟨exclusive, contents⟩
  | cons access rest ih =>
      obtain ⟨u, step, later⟩ := Option.bind_eq_some_iff.mp run
      obtain ⟨first, others⟩ := (stepsMeet_cons step).mp disciplined
      have moved := exclusive.moved_of_next first step
      rw [written_cons]
      exact ih (exclusive.moved first moved) later others (exclusive.contents first moved contents)

theorem Contents.read (contents : t.Contents page words) (exclusive : Exclusive t) {i : Nat}
    (isPage : t.pageOf frame = some page) (isEntry : i < pageSize) :
    t.memory.pmRead (address frame i) = some (words i) := by
  rw [t.memory.pmRead_address (exclusive.inRange frame page isPage).1 isEntry]
  rcases contents with ⟨frame', isPage', rfl⟩ | swapped
  · rw [exclusive.once frame frame' page isPage isPage']
  · cases swapped.symm.trans (exclusive.notSwapped frame page isPage)

/-- **Swapping is transparent.** In every run that a caller with this discipline
makes, a page that has been brought in keeps its words, up to the caller's own
writes to it, in whatever frames it is later; and no access fails an
assertion. -/
theorem swapping_transparent {before after : List Access}
    (earlier : Transition.exec next initial before = some s)
    (later : Transition.exec next s after = some t)
    (disciplined : StepsMeet next Disciplined initial (before ++ after)) :
    (∀ page words, s.Contents page words → ∀ frame i, t.pageOf frame = some page →
      i < pageSize →
        t.memory.pmRead (address frame i) = some (written page after words i)) ∧
      ∀ access, t.Disciplined access → ∃ u, t.next access = some u := by
  obtain ⟨first, second⟩ := (stepsMeet_append earlier).mp disciplined
  have keep : ∀ s access t, Exclusive s → s.Disciplined access → s.next access = some t →
      Exclusive t := fun _ _ _ exclusive disciplined step =>
    exclusive.moved disciplined (exclusive.moved_of_next disciplined step)
  have exclusive : Exclusive s := exec_invariant keep earlier first exclusive_initial
  have exclusiveAfter : Exclusive t := exec_invariant keep later second exclusive
  refine ⟨fun page words contents frame i isPage isEntry => ?_,
    fun access disciplined => exclusiveAfter.next_some disciplined⟩
  exact (exclusive.exec later second contents).2.read exclusiveAfter isPage isEntry

/-- Page 5 comes back in another frame. -/
theorem swapping_transparent_moved : ∃ s t,
    Transition.exec next initial [.restore 5 1, .write 5 1 3 42] = some s ∧
      Transition.exec next s [.evict 5 1, .restore 5 2, .write 5 2 4 43] = some t ∧
      t.memory.pmRead (address 2 3) = some 42 := by
  refine ⟨_, _, rfl, rfl, ?_⟩
  have disciplined : StepsMeet next Disciplined initial
      ([.restore 5 1, .write 5 1 3 42] ++ [.evict 5 1, .restore 5 2, .write 5 2 4 43]) := by
    refine (stepsMeet_cons rfl).mpr ⟨⟨by decide, by decide, rfl, nofun⟩, ?_⟩
    refine (stepsMeet_cons rfl).mpr ⟨⟨rfl, by decide⟩, ?_⟩
    refine (stepsMeet_cons rfl).mpr ⟨by rfl, ?_⟩
    refine (stepsMeet_cons rfl).mpr ⟨⟨by decide, by decide, rfl, ?_⟩, ?_⟩
    rotate_left
    · exact (stepsMeet_cons rfl).mpr ⟨⟨rfl, by decide⟩, stepsMeet_nil _ _⟩
    intro other isPage
    rcases update_eq_some.mp isPage with ⟨-, impossible⟩ | ⟨different, old⟩
    · cases impossible
    · rcases update_eq_some.mp old with ⟨same, -⟩ | ⟨-, impossible⟩
      · exact different same
      · cases impossible
  exact (swapping_transparent rfl rfl disciplined).1 5 _ (.inl ⟨1, rfl, rfl⟩) 2 3 rfl (by decide)

end Paged

end Os2018.VirtualMemory
