import Mathlib.Algebra.Group.Int.Defs
import Mathlib.Algebra.Group.Nat.Defs
import Mathlib.Logic.Function.Basic

/-!
# The physical memory

The RAM is a vector of frames of words, and the swap file maps page numbers to
pages. A frame or page is a function from offsets, of which those below
`pageSize` count. A failing assertion ends the program, and the result is
`none`.

Frame numbers, page numbers and addresses are 64-bit unsigned numbers, a word is
a signed one; `wrap` and `ofWord` are what the arithmetic and the conversion do.
-/

set_option autoImplicit false

namespace Os2018.VirtualMemory

open Function

/-! ## Constants -/

def offsetWidth : Nat := 4

/-- The size of a page in words, and the number of entries of a table. -/
def pageSize : Nat := 1 <<< offsetWidth

def physicalAddressWidth : Nat := 10

def ramSize : Nat := 1 <<< physicalAddressWidth

def virtualAddressWidth : Nat := 20

def virtualMemorySize : Nat := 1 <<< virtualAddressWidth

def numFrames : Nat := ramSize / pageSize

def numPages : Nat := virtualMemorySize / pageSize

def tablesDepth : Nat := (virtualAddressWidth - 1) / offsetWidth

theorem pageSize_eq : pageSize = 16 := rfl

theorem ramSize_eq : ramSize = 1024 := rfl

theorem numFrames_eq : numFrames = 64 := rfl

theorem tablesDepth_eq : tablesDepth = 4 := rfl

/-! ## 64-bit numbers -/

/-- An unsigned result of 64 bits. -/
def wrap (n : Nat) : Nat := n % 2 ^ 64

/-- A word converted to an unsigned number of 64 bits. -/
def ofWord (value : Int) : Nat := (value % 2 ^ 64).toNat

theorem wrap_of_lt {n : Nat} (small : n < 2 ^ 64) : wrap n = n := Nat.mod_eq_of_lt small

theorem ofWord_natCast {n : Nat} (small : n < 2 ^ 64) : ofWord n = n := by
  rw [ofWord]
  omega

/-! ## The code -/

/-- `page_t` -/
abbrev Page := Nat → Int

structure Memory where
  ram : Nat → Page
  swapFile : Nat → Option Page

namespace Memory

def pmRead (m : Memory) (physicalAddress : Nat) : Option Int :=
  if physicalAddress < ramSize then
    some (m.ram (physicalAddress / pageSize) (physicalAddress % pageSize))
  else none

def pmWrite (m : Memory) (physicalAddress : Nat) (value : Int) : Option Memory :=
  if physicalAddress < ramSize then
    let frame := physicalAddress / pageSize
    some { m with
      ram := update m.ram frame (update (m.ram frame) (physicalAddress % pageSize) value) }
  else none

def pmEvict (m : Memory) (frameIndex evictedPageIndex : Nat) : Option Memory :=
  if (m.swapFile evictedPageIndex).isNone ∧ frameIndex < numFrames ∧
      evictedPageIndex < numPages then
    some { m with
      swapFile := update m.swapFile evictedPageIndex (some (m.ram frameIndex)) }
  else none

/-- A page that is not in the swap file leaves what is in the frame. -/
def pmRestore (m : Memory) (frameIndex restoredPageIndex : Nat) : Option Memory :=
  if frameIndex < numFrames then
    match m.swapFile restoredPageIndex with
    | none => some m
    | some page =>
        some {
          ram := update m.ram frameIndex page
          swapFile := update m.swapFile restoredPageIndex none }
  else none

end Memory

/-- The RAM and the swap file when they are first used. -/
def initialMemory : Memory where
  ram := fun _ _ => 0
  swapFile := fun _ => none

/-- The address of an entry of a frame: `frameIndex * PAGE_SIZE + i`. -/
def address (frameIndex i : Nat) : Nat := wrap (frameIndex * pageSize + i)

theorem address_eq {frameIndex i : Nat} (isFrame : frameIndex < numFrames)
    (isEntry : i < pageSize) : address frameIndex i = frameIndex * pageSize + i := by
  rw [numFrames_eq] at isFrame
  rw [pageSize_eq] at isEntry
  rw [address, pageSize_eq, wrap_of_lt (by omega)]

theorem address_lt {frameIndex i : Nat} (isFrame : frameIndex < numFrames)
    (isEntry : i < pageSize) : frameIndex * pageSize + i < ramSize := by
  rw [numFrames_eq] at isFrame
  rw [pageSize_eq] at isEntry ⊢
  rw [ramSize_eq]
  omega

theorem address_frame {frameIndex i : Nat} (isEntry : i < pageSize) :
    (frameIndex * pageSize + i) / pageSize = frameIndex ∧
      (frameIndex * pageSize + i) % pageSize = i := by
  rw [Nat.mul_comm, Nat.mul_add_div (Nat.zero_lt_of_lt isEntry), Nat.mul_add_mod,
    Nat.div_eq_of_lt isEntry, Nat.mod_eq_of_lt isEntry, Nat.add_zero]
  exact ⟨rfl, rfl⟩

theorem Memory.pmWrite_address (m : Memory) {frameIndex i : Nat} (isFrame : frameIndex < numFrames)
    (isEntry : i < pageSize) (value : Int) :
    m.pmWrite (address frameIndex i) value =
      some { m with ram := update m.ram frameIndex (update (m.ram frameIndex) i value) } := by
  obtain ⟨isIndex, isOffset⟩ := @address_frame frameIndex i isEntry
  rw [pmWrite, address_eq isFrame isEntry, if_pos (address_lt isFrame isEntry), isIndex, isOffset]

theorem Memory.pmRead_address (m : Memory) {frameIndex i : Nat} (isFrame : frameIndex < numFrames)
    (isEntry : i < pageSize) : m.pmRead (address frameIndex i) = some (m.ram frameIndex i) := by
  obtain ⟨isIndex, isOffset⟩ := @address_frame frameIndex i isEntry
  rw [pmRead, address_eq isFrame isEntry, if_pos (address_lt isFrame isEntry), isIndex, isOffset]

end Os2018.VirtualMemory
