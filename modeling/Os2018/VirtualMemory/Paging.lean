import Os2018.VirtualMemory.Memory

/-!
# Tables and frames

The page tables are a tree in RAM with its root in frame 0. `findFreeFrame`
looks for a frame to use: a table without entries, the frame after the last one
that is in use, or the frame of a page that it evicts.

A result of `none` is a failed assertion, or that `fuel` calls were not enough.
`findEmptyTable` has no return at its end. A call that gets there leaves its
caller to read whatever value is where the result should be, and the model takes
this value as `atEnd`.
-/

set_option autoImplicit false

namespace Os2018.VirtualMemory

/-! ## Tables -/

/-- `PMwrite(frameIndex * PAGE_SIZE + i, 0)` for each of the entries. -/
def clearEntries (frameIndex : Nat) : List Nat → Memory → Option Memory
  | [], m => some m
  | i :: rest, m => do
      let m ← m.pmWrite (address frameIndex i) 0
      clearEntries frameIndex rest m

def clearTable (m : Memory) (frameIndex : Nat) : Option Memory :=
  clearEntries frameIndex (List.range pageSize) m

/-- The loop of `isFrameEmpty`. -/
def entriesEmpty (m : Memory) (frameIndex : Nat) : List Nat → Option Bool
  | [] => some true
  | i :: rest => do
      let currVal ← m.pmRead (address frameIndex i)
      if currVal ≠ 0 then return false
      else entriesEmpty m frameIndex rest

def isFrameEmpty (m : Memory) (frameIndex : Nat) : Option Bool :=
  entriesEmpty m frameIndex (List.range pageSize)

/-- The loop of `createTable`. -/
def clearReference (frameI parentI : Nat) : List Nat → Memory → Option Memory
  | [], m => some m
  | i :: rest, m => do
      let currVal ← m.pmRead (address parentI i)
      if ofWord currVal = frameI then m.pmWrite (address parentI i) 0
      else clearReference frameI parentI rest m

def createTable (m : Memory) (frameI parentI : Nat) : Option Memory := do
  let m ← clearTable m frameI
  clearReference frameI parentI (List.range pageSize) m

/-! ## Empty tables -/

/-- The result of `findEmptyTable`, and its two reference parameters. -/
structure Found where
  frame : Nat
  currParentFrame : Nat
  maxFrameI : Nat
  deriving DecidableEq, Repr

/-- The loop of `findEmptyTable`. `below` is the recursive call, which takes the
variable `frameIndex` for its parent. -/
def searchEntries (atEnd : Nat) (m : Memory) (avoid : Nat)
    (below : Nat → Nat → Nat → Option Found) : List Nat → Nat → Nat → Nat → Option Found
  | [], _, currParentFrame, maxFrameI => some ⟨atEnd, currParentFrame, maxFrameI⟩
  | i :: rest, frameIndex, currParentFrame, maxFrameI => do
      let currVal ← m.pmRead (address frameIndex i)
      let newFrameIndex := ofWord currVal
      if currVal ≠ 0 then
        let maxFrameI := if newFrameIndex > maxFrameI then newFrameIndex else maxFrameI
        let isEmpty ← isFrameEmpty m newFrameIndex
        if isEmpty && avoid ≠ newFrameIndex then return ⟨newFrameIndex, frameIndex, maxFrameI⟩
        else
          let found ← below newFrameIndex frameIndex maxFrameI
          if found.frame ≠ 0 then return { found with currParentFrame }
          else
            searchEntries atEnd m avoid below rest found.currParentFrame currParentFrame
              found.maxFrameI
      else searchEntries atEnd m avoid below rest frameIndex currParentFrame maxFrameI

/-- `findEmptyTable`; `levels` is `TABLES_DEPTH - 1 - curr_depth`. -/
def findEmptyTable (atEnd : Nat) (m : Memory) (avoid : Nat) :
    (levels : Nat) → (frameIndex currParentFrame maxFrameI : Nat) → Option Found
  | 0, _, currParentFrame, maxFrameI => some ⟨0, currParentFrame, maxFrameI⟩
  | levels + 1, frameIndex, currParentFrame, maxFrameI => do
      let isEmpty ← isFrameEmpty m frameIndex
      if isEmpty then return ⟨frameIndex, currParentFrame, maxFrameI⟩
      else
        searchEntries atEnd m avoid (findEmptyTable atEnd m avoid levels) (List.range pageSize)
          frameIndex currParentFrame maxFrameI

/-! ## Eviction -/

def calcCyclicMin (pageNumber otherPageNumber : Nat) : Nat :=
  let absl :=
    if pageNumber > otherPageNumber then pageNumber - otherPageNumber
    else otherPageNumber - pageNumber
  let other := wrap (2 ^ 64 + numPages - absl)
  if other < absl then other else absl

/-- The reference parameters of `find_frameToEvict`. -/
structure Victim where
  maxparent : Nat
  maxPage : Nat
  maxCyclicDist : Nat
  maxPhysFr : Nat
  deriving DecidableEq, Repr

/-- The loop of `find_frameToEvict`. The recursive call gets the variable
`curr_val` for `max_phys_fr`. -/
def evictEntries (m : Memory) (below : Nat → Victim → Option Victim) (currPage : Nat) :
    List Nat → Victim → Option Victim
  | [], victim => some victim
  | i :: rest, victim => do
      let currVal ← m.pmRead (address currPage i)
      if currVal ≠ 0 then
        let currPageNum := wrap (wrap (currPage <<< offsetWidth) + i)
        let found ← below currPageNum { victim with maxPhysFr := ofWord currVal }
        evictEntries m below currPage rest { found with maxPhysFr := victim.maxPhysFr }
      else evictEntries m below currPage rest victim

def findFrameToEvict (m : Memory) (pageNumber : Nat) (avoid : Fin tablesDepth → Nat) :
    (fuel : Nat) → (currPage parent : Nat) → Victim → (currDepth : Nat) → Option Victim
  | 0, _, _, _, _ => none
  | fuel + 1, currPage, parent, victim, currDepth =>
      if currDepth = tablesDepth ∧ ∃ j, avoid j = currPage then some victim
      else
        let victim :=
          if currDepth = tablesDepth ∧ calcCyclicMin pageNumber currPage > victim.maxCyclicDist then
            { victim with
              maxPage := currPage
              maxCyclicDist := calcCyclicMin pageNumber currPage
              maxparent := parent }
          else victim
        evictEntries m
          (fun currPageNum victim =>
            findFrameToEvict m pageNumber avoid fuel currPageNum currPage victim
              (wrap (currDepth + 1)))
          currPage (List.range pageSize) victim

def frameEvicter (m : Memory) (pageNumber : Nat) (avoid : Fin tablesDepth → Nat) (fuel : Nat) :
    Option (Nat × Memory) := do
  let victim ← findFrameToEvict m pageNumber avoid fuel 0 0 ⟨0, 0, 0, 0⟩ 0
  let m ← m.pmEvict victim.maxPhysFr victim.maxPage
  let m ← createTable m victim.maxPhysFr victim.maxparent
  return (victim.maxPage, m)

/-! ## Free frames -/

def findFreeFrame (atEnd : Nat) (m : Memory) (pageNumber : Nat) (avoid : Fin tablesDepth → Nat)
    (currDepth : Fin tablesDepth) (fuel : Nat) : Option (Nat × Memory) := do
  let isEmpty ← isFrameEmpty m 0
  if isEmpty then return (1, m)
  else
    let found ← findEmptyTable atEnd m (avoid currDepth) (tablesDepth - 1) 0 0 0
    if found.frame ≠ 0 then return (found.frame, m)
    else if wrap (found.maxFrameI + 1) < numFrames then return (wrap (found.maxFrameI + 1), m)
    else frameEvicter m pageNumber avoid fuel

end Os2018.VirtualMemory
