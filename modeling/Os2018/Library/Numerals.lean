import Mathlib.Algebra.Group.Int.Defs
import Mathlib.Algebra.Group.Nat.Defs
import Mathlib.Data.Char
import Mathlib.Data.List.TakeWhile
import Mathlib.Order.Lattice

/-!
# Decimal numerals and `strtol`

A numeral is a non-empty text of decimal digits. `strtol` with base 10 skips
white space, takes a sign and then digits as long as there are any, and gives
their value, or the closest bound of its type when the value is out of range,
together with the rest of the text. Without a digit it gives 0 and the whole
text.

On a text without white space in front `strtol` reads everything exactly if the
text is a numeral or a sign and a numeral (`strtol_reads_all_iff`).
-/

set_option autoImplicit false

namespace Numerals

/-! ## Numerals -/

def isDigit (c : Char) : Bool := '0' ≤ c && c ≤ '9'

def isSpace (c : Char) : Bool := c ∈ [' ', '\t', '\n', '\x0b', '\x0c', '\r']

def IsSign (c : Char) : Prop := c = '-' ∨ c = '+'

/-- The number that the digits stand for. -/
def value (digits : List Char) : Nat :=
  digits.foldl (fun number c => 10 * number + (c.toNat - '0'.toNat)) 0

structure IsNumeral (text : List Char) : Prop where
  nonempty : text ≠ []
  digits : ∀ c ∈ text, isDigit c = true

/-- A sign in front of a numeral. -/
def IsSigned (text : List Char) : Prop :=
  ∃ sign digits, text = sign :: digits ∧ IsSign sign ∧ IsNumeral digits

theorem isDigit_eq_false_of_isSign {c : Char} (sign : IsSign c) : isDigit c = false := by
  rcases sign with rfl | rfl <;> decide

theorem isSpace_eq_false_of_isDigit {c : Char} (digit : isDigit c = true) : isSpace c = false := by
  rw [Bool.eq_false_iff]
  intro space
  simp only [isSpace, List.mem_cons, List.not_mem_nil, or_false, decide_eq_true_eq] at space
  rcases space with rfl | rfl | rfl | rfl | rfl | rfl <;> revert digit <;> decide

theorem isSpace_eq_false_of_isSign {c : Char} (sign : IsSign c) : isSpace c = false := by
  rcases sign with rfl | rfl <;> decide

/-! ## `strtol` -/

/-- `LONG_MIN` and `LONG_MAX`. -/
def longMin : Int := -2 ^ 63

def longMax : Int := 2 ^ 63 - 1

/-- The number, or the bound on its side. -/
def clamp (number : Int) : Int := max longMin (min number longMax)

theorem clamp_of_mem {number : Int} (above : longMin ≤ number) (below : number ≤ longMax) :
    clamp number = number := by
  rw [clamp, min_eq_left below, max_eq_right above]

/-- A sign, if there is one, and what follows it. -/
def takeSign : List Char → Bool × List Char
  | '-' :: text => (true, text)
  | '+' :: text => (false, text)
  | text => (false, text)

def strtol (text : List Char) : Int × List Char :=
  let (negative, unsigned) := takeSign (text.dropWhile isSpace)
  match unsigned.takeWhile isDigit with
  | [] => (0, text)
  | digits =>
      (clamp (if negative then -(value digits : Int) else value digits), unsigned.dropWhile isDigit)

theorem takeSign_of_digit {c : Char} {text : List Char} (digit : isDigit c = true) :
    takeSign (c :: text) = (false, c :: text) := by
  rw [takeSign]
  · rintro _ ⟨rfl, rfl⟩
    exact absurd digit (by decide)
  · rintro _ ⟨rfl, rfl⟩
    exact absurd digit (by decide)

theorem takeSign_suffix (text : List Char) : (takeSign text).2 <:+ text := by
  fun_cases takeSign text with
  | case1 rest => exact List.suffix_cons ..
  | case2 rest => exact List.suffix_cons ..
  | case3 text _ _ => exact List.suffix_rfl

/-- What is left: all of the text when there is no digit, or what follows the
digits. -/
theorem strtol_of_takeSign {text unsigned : List Char} {negative : Bool}
    (sign : takeSign (text.dropWhile isSpace) = (negative, unsigned)) :
    (strtol text).2 = if (unsigned.takeWhile isDigit) = [] then text
      else unsigned.dropWhile isDigit := by
  rw [strtol, sign]
  dsimp only
  cases unsigned.takeWhile isDigit with
  | nil => rfl
  | cons first digits => rfl

theorem strtol_suffix (text : List Char) : (strtol text).2 <:+ text := by
  have behind : (takeSign (text.dropWhile isSpace)).2 <:+ text :=
    (takeSign_suffix _).trans (List.dropWhile_suffix _)
  rw [strtol_of_takeSign rfl]
  split_ifs
  · exact List.suffix_rfl
  · exact (List.dropWhile_suffix _).trans behind

theorem takeWhile_of_isNumeral {text : List Char} (numeral : IsNumeral text) :
    text.takeWhile isDigit = text := List.takeWhile_eq_self_iff.mpr numeral.digits

theorem strtol_numeral {text : List Char} (numeral : IsNumeral text) :
    strtol text = (clamp (value text), []) := by
  obtain ⟨nonempty, digits⟩ := numeral
  cases text with
  | nil => exact absurd rfl nonempty
  | cons first rest =>
      have digit : isDigit first = true := digits first List.mem_cons_self
      have noSpace : (first :: rest).dropWhile isSpace = first :: rest :=
        List.dropWhile_cons_of_neg (by simp [isSpace_eq_false_of_isDigit digit])
      rw [strtol, noSpace, takeSign_of_digit digit]
      dsimp only
      rw [List.takeWhile_eq_self_iff.mpr digits, List.dropWhile_eq_nil_iff.mpr digits]
      rfl

/-- A text that begins with a sign or a digit is read to its end exactly if it is
a numeral, with or without a sign. -/
theorem strtol_reads_all_iff {first : Char} {rest : List Char}
    (starts : isDigit first = true ∨ IsSign first) :
    (strtol (first :: rest)).2 = [] ↔ IsNumeral (first :: rest) ∨ IsSigned (first :: rest) := by
  have noSpace : (first :: rest).dropWhile isSpace = first :: rest := by
    refine List.dropWhile_cons_of_neg ?_
    rcases starts with digit | sign
    · simp [isSpace_eq_false_of_isDigit digit]
    · simp [isSpace_eq_false_of_isSign sign]
  rcases starts with digit | sign
  · have notSigned : ¬ IsSigned (first :: rest) := by
      rintro ⟨sign, digits, same, isSign, -⟩
      cases same
      exact absurd digit (by simp [isDigit_eq_false_of_isSign isSign])
    rw [strtol_of_takeSign (by rw [noSpace, takeSign_of_digit digit]),
      List.takeWhile_cons_of_pos digit, if_neg (List.cons_ne_nil _ _),
      List.dropWhile_eq_nil_iff, or_iff_left notSigned]
    exact ⟨fun digits => ⟨List.cons_ne_nil _ _, digits⟩, fun numeral => numeral.digits⟩
  · have notNumeral : ¬ IsNumeral (first :: rest) := fun numeral => by
      have digit := numeral.digits first List.mem_cons_self
      exact absurd digit (by simp [isDigit_eq_false_of_isSign sign])
    have signed : ∃ negative, takeSign ((first :: rest).dropWhile isSpace) = (negative, rest) := by
      rw [noSpace]
      rcases sign with rfl | rfl
      · exact ⟨true, rfl⟩
      · exact ⟨false, rfl⟩
    obtain ⟨negative, signed⟩ := signed
    rw [strtol_of_takeSign signed, or_iff_right notNumeral]
    constructor
    · intro readsAll
      split_ifs at readsAll with noDigit
      refine ⟨first, rest, rfl, sign, ?_, List.dropWhile_eq_nil_iff.mp readsAll⟩
      rintro rfl
      exact noDigit rfl
    · rintro ⟨sign', digits, same, -, numeral⟩
      cases same
      rw [takeWhile_of_isNumeral numeral, if_neg numeral.nonempty]
      exact List.dropWhile_eq_nil_iff.mpr numeral.digits

end Numerals
