import Mathlib.Data.List.TakeWhile

/-!
# Words of a text

A text is a list of symbols, some of which separate. Its words are the longest
runs of other symbols, from left to right; runs of separators count as one.

A text that is not blank begins with a gap, a word and a rest that is empty or
begins with a separator (`Cut`). The parts are determined by the text
(`Cut.unique`), and the words of the text are that word and the words of the rest
(`Cut.words`). Words joined by a separator are the words of the result
(`words_intercalate`).
-/

set_option autoImplicit false

namespace Words

universe u

variable {α : Type u} {sep : α → Bool}

/-- The non-empty pieces between separators. -/
def words (sep : α → Bool) (text : List α) : List (List α) :=
  (text.splitOnP sep).filter fun piece => !piece.isEmpty

/-- A text as a gap, a word and the rest behind the word. -/
structure Cut (sep : α → Bool) (text gap word rest : List α) : Prop where
  text_eq : text = gap ++ (word ++ rest)
  gap_sep : ∀ c ∈ gap, sep c = true
  word_ne_nil : word ≠ []
  word_sep : ∀ c ∈ word, sep c = false
  rest_sep : ∀ c ∈ rest.head?, sep c = true

/-! ## The parts of a text -/

theorem exists_word (sep : α → Bool) (text : List α) : ∃ word rest, text = word ++ rest ∧
    (∀ c ∈ word, sep c = false) ∧ ∀ c ∈ rest.head?, sep c = true := by
  induction text with
  | nil => exact ⟨[], [], rfl, by simp, by simp⟩
  | cons first text ih =>
      cases separates : sep first with
      | true => exact ⟨[], first :: text, rfl, by simp, by simpa using separates⟩
      | false =>
          obtain ⟨word, rest, rfl, wordSep, restSep⟩ := ih
          exact ⟨first :: word, rest, rfl, List.forall_mem_cons.mpr ⟨separates, wordSep⟩, restSep⟩

/-- A text is blank or begins with a word. -/
theorem blank_or_cut (sep : α → Bool) (text : List α) :
    (∀ c ∈ text, sep c = true) ∨ ∃ gap word rest, Cut sep text gap word rest := by
  induction text with
  | nil => exact .inl (by simp)
  | cons first text ih =>
      cases separates : sep first with
      | true =>
          rcases ih with blank | ⟨gap, word, rest, cut⟩
          · exact .inl (List.forall_mem_cons.mpr ⟨separates, blank⟩)
          · refine .inr ⟨first :: gap, word, rest, ?_⟩
            exact { cut with
              text_eq := by rw [cut.text_eq, List.cons_append]
              gap_sep := List.forall_mem_cons.mpr ⟨separates, cut.gap_sep⟩ }
      | false =>
          obtain ⟨word, rest, rfl, wordSep, restSep⟩ := exists_word sep text
          exact .inr ⟨[], first :: word, rest,
            { text_eq := rfl
              gap_sep := by simp
              word_ne_nil := List.cons_ne_nil _ _
              word_sep := List.forall_mem_cons.mpr ⟨separates, wordSep⟩
              rest_sep := restSep }⟩

section Cut

variable {text gap word rest : List α}

theorem dropWhile_blank (blank : ∀ c ∈ text, sep c = true) : text.dropWhile sep = [] :=
  List.dropWhile_eq_nil_iff.mpr blank

theorem Cut.dropWhile (cut : Cut sep text gap word rest) :
    text.dropWhile sep = word ++ rest := by
  have wordHead : (word ++ rest).dropWhile sep = word ++ rest := by
    obtain ⟨first, word', rfl⟩ := List.exists_cons_of_ne_nil cut.word_ne_nil
    rw [List.cons_append, List.dropWhile_cons_of_neg]
    simp [cut.word_sep first List.mem_cons_self]
  rw [cut.text_eq, List.dropWhile_append_of_pos cut.gap_sep, wordHead]

theorem Cut.takeWhile_word (cut : Cut sep text gap word rest) :
    (word ++ rest).takeWhile (fun c => !sep c) = word := by
  have stops : rest.takeWhile (fun c => !sep c) = [] := by
    cases rest with
    | nil => rfl
    | cons first rest =>
        rw [List.takeWhile_cons_of_neg]
        simp [cut.rest_sep first rfl]
  rw [List.takeWhile_append_of_pos fun c member => by simp [cut.word_sep c member], stops,
    List.append_nil]

theorem Cut.dropWhile_word (cut : Cut sep text gap word rest) :
    (word ++ rest).dropWhile (fun c => !sep c) = rest := by
  have stops : rest.dropWhile (fun c => !sep c) = rest := by
    cases rest with
    | nil => rfl
    | cons first rest =>
        rw [List.dropWhile_cons_of_neg]
        simp [cut.rest_sep first rfl]
  rw [List.dropWhile_append_of_pos fun c member => by simp [cut.word_sep c member], stops]

/-- The text determines its gap, its first word and the rest. -/
theorem Cut.unique (cut : Cut sep text gap word rest) {gap' word' rest' : List α}
    (cut' : Cut sep text gap' word' rest') : gap = gap' ∧ word = word' ∧ rest = rest' := by
  have later : word ++ rest = word' ++ rest' := cut.dropWhile.symm.trans cut'.dropWhile
  have sameWord : word = word' := by
    rw [← cut.takeWhile_word, later, cut'.takeWhile_word]
  have sameRest : rest = rest' := by
    rw [← cut.dropWhile_word, later, cut'.dropWhile_word]
  refine ⟨?_, sameWord, sameRest⟩
  have whole : gap ++ (word ++ rest) = gap' ++ (word ++ rest) := by
    rw [← cut.text_eq, later, ← cut'.text_eq]
  exact List.append_cancel_right whole

/-! ## Words -/

@[simp] theorem words_nil : words sep [] = [] := rfl

/-- A separator stands between words. -/
theorem words_append_cons {c : α} (separates : sep c = true) (before after : List α) :
    words sep (before ++ c :: after) = words sep before ++ words sep after := by
  rw [words, List.splitOnP_append_cons before after separates, List.filter_append]
  rfl

theorem words_cons_sep {c : α} (separates : sep c = true) (text : List α) :
    words sep (c :: text) = words sep text :=
  words_append_cons separates [] text

theorem words_blank (blank : ∀ c ∈ text, sep c = true) : words sep text = [] := by
  induction text with
  | nil => rfl
  | cons first text ih =>
      obtain ⟨separates, blank⟩ := List.forall_mem_cons.mp blank
      rw [words_cons_sep separates, ih blank]

theorem words_singleton (nonempty : word ≠ []) (wordSep : ∀ c ∈ word, sep c = false) :
    words sep word = [word] := by
  rw [words, List.splitOnP_eq_singleton wordSep]
  simpa using nonempty

/-- What is behind the first separator of the rest has the same words. -/
theorem words_drop_one (restSep : ∀ c ∈ rest.head?, sep c = true) :
    words sep (rest.drop 1) = words sep rest := by
  cases rest with
  | nil => rfl
  | cons first rest => exact (words_cons_sep (restSep first rfl) rest).symm

theorem Cut.words (cut : Cut sep text gap word rest) :
    words sep text = word :: words sep rest := by
  have alone : Words.words sep word = [word] := words_singleton cut.word_ne_nil cut.word_sep
  have behind : Words.words sep (word ++ rest) = word :: Words.words sep rest := by
    cases rest with
    | nil => rw [List.append_nil, alone, words_nil]
    | cons first rest =>
        have separates : sep first = true := cut.rest_sep first rfl
        rw [words_append_cons separates, alone, words_cons_sep separates, List.singleton_append]
  rw [cut.text_eq, ← behind]
  have blank := cut.gap_sep
  clear cut
  induction gap with
  | nil => rfl
  | cons first gap ih =>
      obtain ⟨separates, blank⟩ := List.forall_mem_cons.mp blank
      rw [List.cons_append, words_cons_sep separates, ih blank]

end Cut

/-- Joining words by a separator and taking the words again. -/
theorem words_intercalate {c : α} (separates : sep c = true) {parts : List (List α)}
    (nonempty : ∀ part ∈ parts, part ≠ []) (partSep : ∀ part ∈ parts, ∀ c ∈ part, sep c = false) :
    words sep ([c].intercalate parts) = parts := by
  induction parts with
  | nil => rfl
  | cons part parts ih =>
      have alone : words sep part = [part] :=
        words_singleton (nonempty part List.mem_cons_self) (partSep part List.mem_cons_self)
      have later := ih (fun other member => nonempty other (List.mem_cons_of_mem _ member))
        fun other member => partSep other (List.mem_cons_of_mem _ member)
      cases parts with
      | nil => rw [List.intercalate_singleton, alone]
      | cons next parts =>
          rw [List.intercalate_cons_cons, List.append_assoc, List.singleton_append,
            words_append_cons separates, alone, later, List.singleton_append]

end Words
