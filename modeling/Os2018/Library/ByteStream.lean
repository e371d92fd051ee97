import Mathlib.Data.List.SplitLengths
import Mathlib.Algebra.BigOperators.Group.List.Basic
import Mathlib.Algebra.GroupWithZero.Nat

/-!
# Cutting a stream into pieces

A transport hands a stream over in pieces of its own choosing. The pieces of
a list are given by their sizes (`List.splitLengths`). A reader copies every
piece into a buffer at some position; copying leaves the rest of the buffer as
it was (`overwrite`).

Two readers are compared. One puts each piece behind the previous one and ends
with the stream itself (`flatten_splitLengths`). The other puts every piece at
the start of the buffer (`overlay`): the last piece is what the start of the
buffer holds afterwards (`overlay_concat`), and a position that no piece
reaches keeps its old value (`getElem?_overlay`).
-/

set_option autoImplicit false

namespace ByteStream

variable {α : Type*}

/-! ## Writing into a buffer -/

/-- The buffer after a piece is copied into it at a position. -/
def overwrite (buffer : List α) (position : Nat) (piece : List α) : List α :=
  buffer.take position ++ piece ++ buffer.drop (position + piece.length)

@[simp] theorem overwrite_zero (buffer piece : List α) :
    overwrite buffer 0 piece = piece ++ buffer.drop piece.length := by
  simp [overwrite]

/-- The buffer after every piece is copied to its start, one after the other. -/
def overlay (buffer : List α) (pieces : List (List α)) : List α :=
  pieces.foldl (fun current piece => overwrite current 0 piece) buffer

@[simp] theorem overlay_nil (buffer : List α) : overlay buffer [] = buffer := rfl

@[simp] theorem overlay_cons (buffer piece : List α) (pieces : List (List α)) :
    overlay buffer (piece :: pieces) = overlay (overwrite buffer 0 piece) pieces := rfl

/-- The start of the buffer holds the last piece. -/
theorem overlay_concat (buffer piece : List α) (pieces : List (List α)) :
    overlay buffer (pieces ++ [piece]) =
      piece ++ (overlay buffer pieces).drop piece.length := by
  simp [overlay]

/-- A position that no piece reaches keeps its value. -/
theorem getElem?_overlay {buffer : List α} {pieces : List (List α)} {position : Nat}
    (short : ∀ piece ∈ pieces, piece.length ≤ position) :
    (overlay buffer pieces)[position]? = buffer[position]? := by
  induction pieces generalizing buffer with
  | nil => rfl
  | cons piece pieces ih =>
      have reach : piece.length ≤ position := short piece List.mem_cons_self
      rw [overlay_cons, ih fun other member => short other (List.mem_cons_of_mem _ member),
        overwrite_zero, List.getElem?_append_right reach, List.getElem?_drop]
      congr 1
      omega

/-- A buffer and pieces of one repeated value give that value everywhere. -/
theorem overlay_replicate {buffer : List α} {pieces : List (List α)} {value : α}
    (constant : ∀ x ∈ buffer, x = value) (same : ∀ piece ∈ pieces, ∀ x ∈ piece, x = value) :
    ∀ x ∈ overlay buffer pieces, x = value := by
  induction pieces generalizing buffer with
  | nil => exact constant
  | cons piece pieces ih =>
      refine ih ?_ fun other member => same other (List.mem_cons_of_mem _ member)
      intro x member
      simp only [overwrite_zero, List.mem_append] at member
      rcases member with inPiece | inRest
      · exact same piece List.mem_cons_self x inPiece
      · exact constant x (List.mem_of_mem_drop inRest)

/-! ## Pieces by their sizes -/

/-- Every element of a piece comes from the stream. -/
theorem mem_of_mem_splitLengths {sizes : List Nat} {stream piece : List α} {x : α}
    (member : piece ∈ sizes.splitLengths stream) (inPiece : x ∈ piece) : x ∈ stream := by
  induction sizes generalizing stream with
  | nil => simp at member
  | cons size sizes ih =>
      rw [List.splitLengths_cons, List.mem_cons] at member
      rcases member with rfl | later
      · exact List.mem_of_mem_take inPiece
      · exact List.mem_of_mem_drop (ih later)

/-- The last piece of a list of sizes is the end of the stream. -/
theorem splitLengths_concat (sizes : List Nat) (last : Nat) (stream : List α) :
    (sizes ++ [last]).splitLengths stream =
      sizes.splitLengths stream ++ [(stream.drop sizes.sum).take last] := by
  induction sizes generalizing stream with
  | nil => simp
  | cons size sizes ih =>
      simp only [List.cons_append, List.splitLengths_cons, ih, List.drop_drop, List.sum_cons]

/-- A piece is at most as long as the size that cut it. -/
theorem length_le_of_mem_splitLengths {sizes : List Nat} {stream piece : List α} {bound : Nat}
    (small : ∀ size ∈ sizes, size ≤ bound) (member : piece ∈ sizes.splitLengths stream) :
    piece.length ≤ bound := by
  induction sizes generalizing stream with
  | nil => simp at member
  | cons size sizes ih =>
      rw [List.splitLengths_cons, List.mem_cons] at member
      rcases member with rfl | later
      · exact (List.length_take_le size stream).trans (small size List.mem_cons_self)
      · exact ih (fun other inSizes => small other (List.mem_cons_of_mem _ inSizes)) later

/-- In a list of positive sizes with two members or more, no size is the
whole sum. -/
theorem lt_sum_of_mem {sizes : List Nat} (positive : ∀ size ∈ sizes, 0 < size)
    (several : 2 ≤ sizes.length) {size : Nat} (member : size ∈ sizes) : size < sizes.sum := by
  obtain ⟨before, after, rfl⟩ := List.append_of_mem member
  have other : 0 < before.sum + after.sum := by
    cases before with
    | cons first before =>
        have := positive first (by simp)
        simp only [List.sum_cons]
        omega
    | nil =>
        cases after with
        | nil => simp at several
        | cons first after =>
            have := positive first (by simp)
            simp only [List.sum_nil, List.sum_cons]
            omega
  simp only [List.sum_append, List.sum_cons]
  omega

end ByteStream
