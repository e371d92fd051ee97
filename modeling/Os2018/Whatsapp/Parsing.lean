import Os2018.Library.Words
import Os2018.Whatsapp.Codec
import Os2018.Whatsapp.Registry
import Os2018.Whatsapp.Session

/-!
# What `parseCommand` reads

The tokens that `strtok_r` finds are the words of the command (`strtok_cut`,
`strtokLoop_eq`), whatever spaces stand around them. The message of a `send` is
not a token: it is cut off the original string behind as many bytes as the name,
the word `send` and two spaces have.

That offset is right for the commands in which no further space stands before the
name (`send_message_iff`), and past the end of a command that is `send`, one
space and a name. Such a command, one that fills the buffer to the last byte, and
one of spaces only are those that `parseCommand` does not survive
(`parseCommand_safe_iff`). A command put together with single spaces is read as
what it was made from (`command_round_trip`).
-/

set_option autoImplicit false

namespace Os2018.Whatsapp

open Words

/-! ## Tokens are words -/

/-- The test of `strtok_r`. -/
def isDelim (delims : CppString) (c : Byte) : Bool := c ∈ delims

def isSpace : Byte → Bool := isDelim " ".toList

@[simp] theorem isSpace_iff {c : Byte} : isSpace c = true ↔ c = ' ' := by
  simp [isSpace, isDelim]

@[simp] theorem isSpace_eq_false {c : Byte} : isSpace c = false ↔ c ≠ ' ' := by
  simp [isSpace, isDelim]

theorem isSpace_eq_false_of_not_mem {text : CppString} (noSpace : ' ' ∉ text) :
    ∀ c ∈ text, isSpace c = false := by
  intro c member
  rw [isSpace_eq_false]
  rintro rfl
  exact noSpace member

section Tokens

variable {delims text gap word rest : CppString}

theorem strtok_blank (blank : ∀ c ∈ text, isDelim delims c = true) :
    strtok delims text = (none, []) := by
  have nothing : text.dropWhile (fun c => decide (c ∈ delims)) = [] := dropWhile_blank blank
  rw [strtok, nothing]

theorem strtok_cut (cut : Cut (isDelim delims) text gap word rest) :
    strtok delims text = (some word, rest.drop 1) := by
  have found : text.dropWhile (fun c => decide (c ∈ delims)) = word ++ rest := cut.dropWhile
  have negated : (fun c => decide (c ∉ delims)) = fun c => !isDelim delims c := by
    funext c
    exact decide_not
  obtain ⟨first, tail, shape⟩ : ∃ first tail, word ++ rest = first :: tail :=
    List.exists_cons_of_ne_nil (by simp [cut.word_ne_nil])
  rw [strtok, found, shape]
  dsimp only
  rw [← shape, negated, cut.takeWhile_word, cut.dropWhile_word]

/-- The loop over `strtok_r` takes all words, when it may take as many rounds as
there are bytes. -/
theorem strtokLoop_eq {rounds : Nat} (enough : text.length ≤ rounds) :
    strtokLoop delims rounds text = words (isDelim delims) text := by
  induction rounds generalizing text with
  | zero =>
      rw [List.eq_nil_of_length_eq_zero (Nat.le_zero.mp enough)]
      rfl
  | succ rounds ih =>
      rcases blank_or_cut (isDelim delims) text with blank | ⟨gap, word, rest, cut⟩
      · rw [strtokLoop, strtok_blank blank, words_blank blank]
      · have shorter : (rest.drop 1).length ≤ rounds := by
          have lengths := congrArg List.length cut.text_eq
          have nonempty := List.length_pos_iff.mpr cut.word_ne_nil
          simp only [List.length_append] at lengths
          rw [List.length_drop]
          omega
        rw [strtokLoop, strtok_cut cut]
        dsimp only
        rw [ih shorter, words_drop_one cut.rest_sep, cut.words]

end Tokens

/-! ## `parseCommand` after its first token -/

theorem parseCommandInto_eq (outputs : ParsedCommand) (command : CppString) :
    parseCommandInto outputs command = parseCommand command := by
  rw [parseCommandInto, parseCommand]
  rfl

/-- The branches on the first token. -/
def parseToken (command s rest : CppString) : Except ParseError ParsedCommand :=
  if s = "create_group".toList then
    match strtok " ".toList rest with
    | (none, _) => .ok { commandT := .invalid }
    | (some name, rest) =>
        .ok { commandT := .createGroup, name, clients := strtokLoop ",".toList rest.length rest }
  else if s = "send".toList then
    match strtok " ".toList rest with
    | (none, _) => .ok { commandT := .invalid }
    | (some name, _) => do
        let message ← substr command (name.length + 6)
        return { commandT := .send, name, message }
  else if s = "who".toList then .ok { commandT := .who }
  else if s = "exit".toList then .ok { commandT := .exit }
  else .ok { commandT := .invalid }

section Parse

variable {command gap s rest : CppString}

/-- The copy holds the bytes before the first NUL and one more. -/
theorem parseCommand_long (nonempty : command ≠ [])
    (long : waMaxInput ≤ (cString command).length) :
    parseCommand command = .error .bufferOverflow := by
  rw [parseCommand, if_neg (by simpa using nonempty), if_pos (by omega)]

theorem parseCommand_blank (nonempty : command ≠ [])
    (short : (cString command).length < waMaxInput)
    (blank : ∀ c ∈ cString command, isSpace c = true) :
    parseCommand command = .error .nullToken := by
  rw [parseCommand, if_neg (by simpa using nonempty), if_neg (by omega), strtok_blank blank]

theorem parseCommand_cut (short : (cString command).length < waMaxInput)
    (cut : Cut isSpace (cString command) gap s rest) :
    parseCommand command = parseToken command s (rest.drop 1) := by
  have nonempty : command ≠ [] := by
    rintro rfl
    have parts := cut.text_eq
    simp [cString, cut.word_ne_nil] at parts
  rw [parseCommand, if_neg (by simpa using nonempty), if_neg (by omega), strtok_cut cut]
  rfl

end Parse

/-! ## The bytes before the first NUL -/

theorem cString_of_noNul {command : CppString} (noNul : nul ∉ command) :
    cString command = command := by
  rw [cString, List.takeWhile_eq_self_iff]
  intro c member
  rw [decide_eq_true_eq]
  rintro rfl
  exact noNul member

theorem nul_not_mem_cString (command : CppString) : nul ∉ cString command := by
  intro member
  simpa using List.mem_takeWhile_imp member

theorem exists_cString_append (command : CppString) :
    ∃ tail, command = cString command ++ tail ∧ ∀ c ∈ tail.head?, c = nul := by
  refine ⟨command.dropWhile (· ≠ nul), (List.takeWhile_append_dropWhile ..).symm, ?_⟩
  intro c member
  have stops := List.head?_dropWhile_not (fun c => decide (c ≠ nul)) command
  rw [Option.mem_def.mp member] at stops
  simpa using stops

/-! ## The layout of a `send` command -/

/-- Spaces, the word `send`, spaces, the name, and what stands behind the name.
At least one space separates the name from `send`. -/
structure SendLayout (command gap gap' name rest : CppString) : Prop where
  command_eq : command = gap ++ ("send".toList ++ ' ' :: (gap' ++ (name ++ rest)))
  gap_space : ∀ c ∈ gap, c = ' '
  gap'_space : ∀ c ∈ gap', c = ' '
  name_ne_nil : name ≠ []
  name_space : ' ' ∉ name

namespace SendLayout

variable {command gap gap' name rest : CppString}

theorem length (layout : SendLayout command gap gap' name rest) :
    command.length = gap.length + gap'.length + name.length + rest.length + 5 := by
  rw [layout.command_eq]
  simp only [List.length_append, List.length_cons]
  have word : ("send".toList).length = 4 := rfl
  omega

/-- What stands behind the name, cut off at its offset. -/
theorem drop (layout : SendLayout command gap gap' name rest) :
    command.drop (gap.length + gap'.length + name.length + 6) = rest.drop 1 := by
  have flat : command = (gap ++ "send".toList ++ [' '] ++ gap' ++ name) ++ rest := by
    rw [layout.command_eq]
    simp only [List.append_assoc, List.cons_append, List.nil_append]
  have offset : (gap ++ "send".toList ++ [' '] ++ gap' ++ name).length + 1 =
      gap.length + gap'.length + name.length + 6 := by
    simp only [List.length_append, List.length_singleton]
    have word : ("send".toList).length = 4 := rfl
    omega
  rw [flat, ← offset, List.drop_length_add_append]

/-- The name is found only behind a space. -/
theorem of_cuts {behind : CppString} (cut : Cut isSpace command gap "send".toList behind)
    (nameCut : Cut isSpace (behind.drop 1) gap' name rest) :
    SendLayout command gap gap' name rest where
  command_eq := by
    cases behind with
    | nil =>
        have parts := nameCut.text_eq
        simp [nameCut.word_ne_nil] at parts
    | cons space behind =>
        obtain rfl : space = ' ' := isSpace_iff.mp (cut.rest_sep space rfl)
        rw [cut.text_eq]
        congr 3
        exact nameCut.text_eq
  gap_space := fun c member => isSpace_iff.mp (cut.gap_sep c member)
  gap'_space := fun c member => isSpace_iff.mp (nameCut.gap_sep c member)
  name_ne_nil := nameCut.word_ne_nil
  name_space := fun member => isSpace_eq_false.mp (nameCut.word_sep _ member) rfl

theorem append_rest (layout : SendLayout command gap gap' name rest) (tail : CppString) :
    SendLayout (command ++ tail) gap gap' name (rest ++ tail) :=
  { layout with
    command_eq := by
      rw [layout.command_eq]
      simp only [List.append_assoc, List.cons_append] }

theorem cut (layout : SendLayout command gap gap' name rest) :
    Cut isSpace command gap "send".toList (' ' :: (gap' ++ (name ++ rest))) where
  text_eq := layout.command_eq
  gap_sep := fun c member => isSpace_iff.mpr (layout.gap_space c member)
  word_ne_nil := by simp
  word_sep := isSpace_eq_false_of_not_mem (by decide)
  rest_sep := by simp

theorem nameCut (layout : SendLayout command gap gap' name rest)
    (ends : ∀ c ∈ rest.head?, c = ' ') : Cut isSpace (gap' ++ (name ++ rest)) gap' name rest where
  text_eq := rfl
  gap_sep := fun c member => isSpace_iff.mpr (layout.gap'_space c member)
  word_ne_nil := layout.name_ne_nil
  word_sep := isSpace_eq_false_of_not_mem layout.name_space
  rest_sep := fun c member => isSpace_iff.mpr (ends c member)

/-- The name is the second word of the command. -/
theorem words_eq (layout : SendLayout command gap gap' name rest)
    (ends : ∀ c ∈ rest.head?, c = ' ') :
    words isSpace command = "send".toList :: name :: words isSpace rest := by
  rw [layout.cut.words, words_cons_sep (isSpace_iff.mpr rfl), (layout.nameCut ends).words]

/-- The layout is determined by the command when the name ends at a space, a NUL
or the end of the command. -/
theorem unique (layout : SendLayout command gap gap' name rest) (noNul : nul ∉ name)
    (ends : ∀ c ∈ rest.head?, c = ' ' ∨ c = nul) {gap₂ gap₂' name₂ rest₂ : CppString}
    (layout₂ : SendLayout command gap₂ gap₂' name₂ rest₂) (noNul₂ : nul ∉ name₂)
    (ends₂ : ∀ c ∈ rest₂.head?, c = ' ' ∨ c = nul) :
    gap = gap₂ ∧ gap' = gap₂' ∧ name = name₂ ∧ rest = rest₂ := by
  have stopCut : ∀ {gap' name rest : CppString}, (∀ c ∈ gap', c = ' ') → name ≠ [] →
      ' ' ∉ name → nul ∉ name → (∀ c ∈ rest.head?, c = ' ' ∨ c = nul) →
      Cut (isDelim [' ', nul]) (gap' ++ (name ++ rest)) gap' name rest := by
    intro gap' name rest gapSpace nonempty noSpace noNul ends
    refine ⟨rfl, ?_, nonempty, ?_, ?_⟩
    · intro c member
      simp [isDelim, gapSpace c member]
    · intro c member
      have other : c ≠ ' ' := fun same => noSpace (same ▸ member)
      have other' : c ≠ nul := fun same => noNul (same ▸ member)
      simp [isDelim, other, other']
    · intro c member
      simpa [isDelim] using ends c member
  obtain ⟨sameGap, -, behind⟩ := layout.cut.unique layout₂.cut
  have first := stopCut layout.gap'_space layout.name_ne_nil layout.name_space noNul ends
  have second := stopCut layout₂.gap'_space layout₂.name_ne_nil layout₂.name_space noNul₂ ends₂
  rw [(List.cons.inj behind).2] at first
  exact ⟨sameGap, first.unique second⟩

/-- What `parseCommand` makes of a command of this layout without NUL bytes. -/
theorem parse (layout : SendLayout command gap gap' name rest)
    (ends : ∀ c ∈ rest.head?, c = ' ') (noNul : nul ∉ command)
    (short : command.length < waMaxInput) :
    parseCommand command = (substr command (name.length + 6)).map fun message =>
      { commandT := .send, name, message } := by
  have whole : cString command = command := cString_of_noNul noNul
  have cut : Cut isSpace (cString command) gap "send".toList _ := whole.symm ▸ layout.cut
  have token : strtok " ".toList (gap' ++ (name ++ rest)) = (some name, rest.drop 1) :=
    strtok_cut (layout.nameCut ends)
  rw [parseCommand_cut (whole.symm ▸ short) cut, parseToken, if_neg (by decide), if_pos rfl,
    List.drop_one, List.tail_cons, token]
  dsimp only
  cases substr command (name.length + 6) <;> rfl

end SendLayout

/-- **What a `send` is read from.** The command has the layout of a `send` with
the name that was read; behind the name stands nothing, a space or a NUL. -/
theorem exists_sendLayout {command : CppString} {parsed : ParsedCommand}
    (isParsed : parseCommand command = .ok parsed) (isSend : parsed.commandT = .send) :
    ∃ gap gap' rest, SendLayout command gap gap' parsed.name rest ∧ nul ∉ parsed.name ∧
      (∀ c ∈ rest.head?, c = ' ' ∨ c = nul) ∧ parsed.name.length + 6 ≤ command.length ∧
      parsed.message = command.drop (parsed.name.length + 6) := by
  by_cases nonempty : command = []
  · subst nonempty
    cases isParsed
    cases isSend
  by_cases short : (cString command).length < waMaxInput
  swap
  · rw [parseCommand_long nonempty (Nat.le_of_not_lt short)] at isParsed
    cases isParsed
  rcases blank_or_cut isSpace (cString command) with blank | ⟨gap, s, rest, cut⟩
  · rw [parseCommand_blank nonempty short blank] at isParsed
    cases isParsed
  rw [parseCommand_cut short cut, parseToken] at isParsed
  split_ifs at isParsed with isGroup isSendWord isWho isExit
  · split at isParsed <;> cases isParsed <;> cases isSend
  · subst isSendWord
    rcases blank_or_cut isSpace (rest.drop 1) with blank | ⟨gap', name, rest', nameCut⟩
    · rw [strtok_blank blank] at isParsed
      cases isParsed
      cases isSend
    rw [strtok_cut nameCut] at isParsed
    dsimp only at isParsed
    rw [substr] at isParsed
    split_ifs at isParsed with beyond
    · cases isParsed
    cases isParsed
    obtain ⟨tail, whole, tailEnds⟩ := exists_cString_append command
    have layout := SendLayout.of_cuts cut nameCut
    refine ⟨gap, gap', rest' ++ tail, ?_, ?_, ?_, Nat.le_of_not_lt beyond, rfl⟩
    · rw [whole]
      exact layout.append_rest tail
    · intro member
      apply nul_not_mem_cString command
      rw [layout.command_eq]
      simp [member]
    · cases rest' with
      | nil => exact fun c member => .inr (tailEnds c member)
      | cons first rest' =>
          exact fun c member => .inl (isSpace_iff.mp (nameCut.rest_sep c member))
  all_goals
    cases isParsed
    cases isSend

/-! ## Commands that `parseCommand` survives -/

/-- The command leaves room for the terminator, is not made of spaces only, and
is not `send`, one space and a name. -/
structure Parsable (command : CppString) : Prop where
  room : command.length < waMaxInput
  word : command ≠ [] → ∃ c ∈ command, c ≠ ' '
  message : ∀ name : CppString, name ≠ [] → ' ' ∉ name → command ≠ "send ".toList ++ name

section Survives

variable {command : CppString}

/-- Too long a command, one of spaces, and a `send` with nothing but a name fail,
each in its own way. -/
theorem parsable_of_parsed (noNul : nul ∉ command) {parsed : ParsedCommand}
    (isParsed : parseCommand command = .ok parsed) : Parsable command := by
  have whole : cString command = command := cString_of_noNul noNul
  have room : command ≠ [] → command.length < waMaxInput := by
    intro nonempty
    by_contra long
    rw [parseCommand_long nonempty (whole.symm ▸ Nat.le_of_not_lt long)] at isParsed
    cases isParsed
  refine ⟨?_, ?_, ?_⟩
  · by_cases nonempty : command = []
    · rw [nonempty]
      exact waMaxInput_pos
    · exact room nonempty
  · intro nonempty
    by_contra blank
    rw [parseCommand_blank nonempty (whole.symm ▸ room nonempty)] at isParsed
    · cases isParsed
    · rw [whole]
      intro c member
      rw [isSpace_iff]
      by_contra other
      exact blank ⟨c, member, other⟩
  · rintro name nonempty noSpace rfl
    have layout : SendLayout ("send ".toList ++ name) [] [] name [] :=
      { command_eq := by simp
        gap_space := by simp
        gap'_space := by simp
        name_ne_nil := nonempty
        name_space := noSpace }
    rw [layout.parse (by simp) noNul (room (by simp)), substr, if_pos (by simp)] at isParsed
    cases isParsed

/-- With a space before `send`, a second one behind it, or anything behind the
name, the offset of the message is inside the command. -/
theorem Parsable.offset_le (parsable : Parsable command) {gap gap' name rest : CppString}
    (layout : SendLayout command gap gap' name rest) : name.length + 6 ≤ command.length := by
  by_contra beyond
  rw [layout.length] at beyond
  obtain rfl : gap = [] := List.eq_nil_of_length_eq_zero (by omega)
  obtain rfl : gap' = [] := List.eq_nil_of_length_eq_zero (by omega)
  obtain rfl : rest = [] := List.eq_nil_of_length_eq_zero (by omega)
  exact parsable.message name layout.name_ne_nil layout.name_space (by simp [layout.command_eq])

theorem Parsable.exists_parsed (parsable : Parsable command) (noNul : nul ∉ command) :
    ∃ parsed, parseCommand command = .ok parsed := by
  have whole : cString command = command := cString_of_noNul noNul
  by_cases nonempty : command = []
  · exact ⟨{ commandT := .invalid }, by rw [nonempty]; rfl⟩
  rcases blank_or_cut isSpace command with blank | ⟨gap, s, rest, cut⟩
  · obtain ⟨c, member, other⟩ := parsable.word nonempty
    exact absurd (isSpace_iff.mp (blank c member)) other
  rw [parseCommand_cut (whole.symm ▸ parsable.room) (whole.symm ▸ cut), parseToken]
  split_ifs with isGroup isSend
  · split <;> exact ⟨_, rfl⟩
  · subst isSend
    rcases blank_or_cut isSpace (rest.drop 1) with blank | ⟨gap', name, rest', nameCut⟩
    · rw [strtok_blank blank]
      exact ⟨_, rfl⟩
    have inside := parsable.offset_le (SendLayout.of_cuts cut nameCut)
    rw [strtok_cut nameCut]
    dsimp only
    rw [substr, if_neg (Nat.not_lt.mpr inside)]
    exact ⟨_, rfl⟩
  all_goals exact ⟨_, rfl⟩

end Survives

/-- **When `parseCommand` completes.** On a string that `read_data` can return it
ends with a command type exactly if the string leaves room for the terminator, is
not made of spaces only, and is not `send`, one space and a name. Otherwise it
overruns its buffer, compares a null token, or `substr` throws. -/
theorem parseCommand_safe_iff (message : Message) :
    (∃ parsed, parseCommand message.text = .ok parsed) ↔ Parsable message.text := by
  constructor
  · rintro ⟨parsed, isParsed⟩
    exact parsable_of_parsed message.noNul isParsed
  · exact fun parsable => parsable.exists_parsed message.noNul

/-- **A `send` without a text.** The name ends the command, and the offset of the
message is one byte past it. -/
theorem send_without_text_throws : ∃ message : Message, message.text = "send bob".toList ∧
    parseCommand message.text = .error .outOfRange :=
  ⟨⟨"send bob".toList, by decide +kernel, by decide +kernel⟩, rfl, by decide +kernel⟩

/-! ## The message of a `send` -/

/-- What a `send` should be read as: the name is the second word, and the message
is what follows the space behind it. -/
structure SendRead (command name message : CppString) : Prop where
  second_word : (words isSpace command)[1]? = some name
  behind_name : ∃ gap gap' rest, SendLayout command gap gap' name rest ∧
    (∀ c ∈ rest.head?, c = ' ') ∧ message = rest.drop 1

/-- No space stands before `send` and one behind it; or there is one space more
and nothing behind the name. -/
def EvenlySpaced (command : CppString) : Prop :=
  ∃ gap gap' name rest, SendLayout command gap gap' name rest ∧ nul ∉ name ∧
    (∀ c ∈ rest.head?, c = ' ') ∧
    (gap.length + gap'.length = 0 ∨ gap.length + gap'.length = 1 ∧ rest = [])

/-- The offset of the message is that of the text behind the name exactly if no
space precedes the name beyond the one that is counted, or nothing is lost. -/
theorem SendLayout.drop_eq_iff {command gap gap' name rest : CppString}
    (layout : SendLayout command gap gap' name rest)
    (inside : name.length + 6 ≤ command.length) :
    command.drop (name.length + 6) = rest.drop 1 ↔
      gap.length + gap'.length = 0 ∨ gap.length + gap'.length = 1 ∧ rest = [] := by
  have total := layout.length
  constructor
  · intro same
    have lengths := congrArg List.length same
    rw [List.length_drop, List.length_drop] at lengths
    by_cases none : gap.length + gap'.length = 0
    · exact .inl none
    · exact .inr ⟨by omega, List.eq_nil_of_length_eq_zero (by omega)⟩
  · rintro (none | ⟨one, rfl⟩)
    · rw [← layout.drop, none, Nat.zero_add]
    · rw [List.length_nil] at total
      exact List.drop_eq_nil_of_le (by omega)

/-- **The message of a `send`.** On every command that is read as a `send`, the
name is the second word and the message the part behind the space that follows
it exactly if the command is evenly spaced. -/
theorem send_message_iff {command : CppString} {parsed : ParsedCommand}
    (isParsed : parseCommand command = .ok parsed) (isSend : parsed.commandT = .send) :
    SendRead command parsed.name parsed.message ↔ EvenlySpaced command := by
  obtain ⟨gap, gap', rest, layout, noNul, ends, inside, message⟩ :=
    exists_sendLayout isParsed isSend
  constructor
  · rintro ⟨-, gap₂, gap₂', rest₂, layout₂, ends₂, message₂⟩
    obtain ⟨rfl, rfl, -, rfl⟩ :=
      layout.unique noNul ends layout₂ noNul fun c member => .inl (ends₂ c member)
    exact ⟨gap, gap', parsed.name, rest, layout, noNul, ends₂,
      (layout.drop_eq_iff inside).mp (message.symm.trans message₂)⟩
  · rintro ⟨gap₂, gap₂', name₂, rest₂, layout₂, noNul₂, ends₂, spaced⟩
    obtain ⟨rfl, rfl, rfl, rfl⟩ :=
      layout.unique noNul ends layout₂ noNul₂ fun c member => .inl (ends₂ c member)
    refine ⟨?_, gap, gap', rest, layout, ends₂, ?_⟩
    · rw [layout.words_eq ends₂]
      rfl
    · exact message.trans ((layout.drop_eq_iff inside).mpr spaced)

theorem send_message_iff_plain :
    SendRead "send bob hi, ann".toList "bob".toList "hi, ann".toList := by
  have isParsed : parseCommand "send bob hi, ann".toList =
      .ok { commandT := .send, name := "bob".toList, message := "hi, ann".toList } := by
    decide +kernel
  have layout : SendLayout "send bob hi, ann".toList [] [] "bob".toList
      (' ' :: "hi, ann".toList) := ⟨rfl, by simp, by simp, by decide, by decide⟩
  refine (send_message_iff isParsed rfl).mpr ⟨[], [], "bob".toList, ' ' :: "hi, ann".toList, ?_⟩
  exact ⟨layout, by decide, by simp, .inl rfl⟩

/-- **Two spaces too many before the name.** The message begins with the last byte
of the name. -/
theorem surplus_spaces_shift_message : ∃ parsed,
    parseCommand "send   bob hi".toList = .ok parsed ∧ parsed.commandT = .send ∧
      parsed.name = "bob".toList ∧ parsed.message = "b hi".toList ∧
      ¬ SendRead "send   bob hi".toList parsed.name parsed.message := by
  have isParsed : parseCommand "send   bob hi".toList =
      .ok { commandT := .send, name := "bob".toList, message := "b hi".toList } := by
    decide +kernel
  refine ⟨_, isParsed, rfl, rfl, rfl, ?_⟩
  rintro ⟨-, gap, gap', rest, layout, ends, message⟩
  have written : SendLayout "send   bob hi".toList [] [' ', ' '] "bob".toList
      (' ' :: "hi".toList) := ⟨rfl, by simp, by simp, by decide, by decide⟩
  obtain ⟨-, -, -, rfl⟩ := written.unique (by decide) (by simp) layout (by decide)
    fun c member => .inl (ends c member)
  exact absurd message (by decide)

/-! ## Round trip -/

/-- A name of letters and digits. -/
structure Name where
  text : CppString
  nonempty : text ≠ []
  valid : validateName text = true

/-- What else may stand in a command is not part of a name. -/
theorem Name.not_mem (name : Name) {c : Byte} (other : isalnum c = false) : c ∉ name.text := by
  intro member
  have alphanumeric : isalnum c = true := List.all_eq_true.mp name.valid c member
  exact Bool.false_ne_true (other.symm.trans alphanumeric)

theorem Name.isDelim_eq_false (name : Name) {delim : Byte} (other : isalnum delim = false) :
    ∀ c ∈ name.text, isDelim [delim] c = false := by
  intro c member
  have different : c ≠ delim := fun same => name.not_mem other (same ▸ member)
  simp [isDelim, different]

/-- The command that creates a group. -/
def createGroupText (groupName : Name) (members : List Name) : CppString :=
  "create_group ".toList ++ (groupName.text ++ ' ' :: joinComma (members.map Name.text))

/-- The command that sends a message. -/
def sendText (name : Name) (message : CppString) : CppString :=
  "send ".toList ++ (name.text ++ ' ' :: message)

theorem words_joinComma (members : List Name) :
    words (isDelim ",".toList) (joinComma (members.map Name.text)) = members.map Name.text := by
  apply words_intercalate (by decide)
  · intro part member
    obtain ⟨name, -, rfl⟩ := List.mem_map.mp member
    exact name.nonempty
  · intro part member
    obtain ⟨name, -, rfl⟩ := List.mem_map.mp member
    exact name.isDelim_eq_false (by decide)

theorem nul_not_mem_joinComma (members : List Name) :
    nul ∉ joinComma (members.map Name.text) := by
  induction members with
  | nil => decide
  | cons name members ih =>
      have first := name.not_mem (c := nul) (by decide)
      cases members with
      | nil => simpa [joinComma] using first
      | cons next members =>
          rw [joinComma, List.map_cons, List.map_cons, List.intercalate_cons_cons]
          rw [joinComma, List.map_cons] at ih
          simp only [List.mem_append, not_or]
          exact ⟨⟨first, by decide⟩, ih⟩

theorem nul_not_mem_command {word rest : CppString} (inWord : nul ∉ word) (name : Name)
    (inRest : nul ∉ rest) : nul ∉ word ++ (name.text ++ ' ' :: rest) := by
  have inName := name.not_mem (c := nul) (by decide)
  simp only [List.mem_append, List.mem_cons, not_or]
  exact ⟨inWord, inName, by decide, inRest⟩

/-- A word, a space and more. -/
theorem cut_front {s : CppString} (nonempty : s ≠ []) (noSpace : ∀ c ∈ s, isSpace c = false)
    (behind : CppString) : Cut isSpace (s ++ ' ' :: behind) [] s (' ' :: behind) where
  text_eq := rfl
  gap_sep := by simp
  word_ne_nil := nonempty
  word_sep := noSpace
  rest_sep := by simp

theorem createGroup_append (behind : CppString) :
    "create_group ".toList ++ behind = "create_group".toList ++ ' ' :: behind := by
  have word : "create_group ".toList = "create_group".toList ++ [' '] := by decide +kernel
  rw [word]
  exact List.append_assoc _ _ _

theorem createGroupText_eq (groupName : Name) (members : List Name) :
    createGroupText groupName members = "create_group".toList ++
      ' ' :: (groupName.text ++ ' ' :: joinComma (members.map Name.text)) :=
  createGroup_append _

theorem parse_createGroupText (groupName : Name) (members : List Name)
    (short : (createGroupText groupName members).length < waMaxInput) :
    parseCommand (createGroupText groupName members) =
      .ok { commandT := .createGroup, name := groupName.text,
            clients := members.map Name.text } := by
  have noNul : nul ∉ createGroupText groupName members :=
    nul_not_mem_command (by decide +kernel) groupName (nul_not_mem_joinComma members)
  have whole := cString_of_noNul noNul
  have noSpace : ∀ c ∈ "create_group".toList, isSpace c = false :=
    isSpace_eq_false_of_not_mem (by decide)
  have cut := cut_front (by simp) noSpace
    (groupName.text ++ ' ' :: joinComma (members.map Name.text))
  rw [← createGroupText_eq, ← whole] at cut
  have nameCut := cut_front groupName.nonempty (groupName.isDelim_eq_false (by decide))
    (joinComma (members.map Name.text))
  have token : strtok " ".toList (groupName.text ++ ' ' :: joinComma (members.map Name.text)) =
      (some groupName.text, joinComma (members.map Name.text)) := strtok_cut nameCut
  rw [parseCommand_cut (whole.symm ▸ short) cut, parseToken, if_pos rfl, List.drop_one,
    List.tail_cons, token]
  dsimp only
  rw [strtokLoop_eq le_rfl, words_joinComma]

theorem parse_sendText (name : Name) {message : CppString} (noNul : nul ∉ message)
    (short : (sendText name message).length < waMaxInput) :
    parseCommand (sendText name message) =
      .ok { commandT := .send, name := name.text, message } := by
  have layout : SendLayout (sendText name message) [] [] name.text (' ' :: message) :=
    { command_eq := by simp [sendText]
      gap_space := by simp
      gap'_space := by simp
      name_ne_nil := name.nonempty
      name_space := name.not_mem (by decide) }
  have clean : nul ∉ sendText name message :=
    nul_not_mem_command (by decide) name noNul
  have inside : ¬ (sendText name message).length < name.text.length + 6 := by
    rw [layout.length]
    simp only [List.length_cons]
    omega
  have text : (sendText name message).drop (name.text.length + 6) = message :=
    (layout.drop_eq_iff (Nat.le_of_not_lt inside)).mpr (.inl rfl)
  rw [layout.parse (by simp) clean short, substr, if_neg inside, text]
  rfl

/-- The client sends the text of a command that it reads as a request. -/
theorem command_createGroupText {groupName : Name} {members : List Name}
    (short : (createGroupText groupName members).length < waMaxInput) {c : Connection}
    (idle : c.phase = .idle) (nothing : c.arrived = []) (other : c.name ≠ groupName.text) :
    c.command (createGroupText groupName members) =
      some (c.issue (createGroupText groupName members) (.awaiting c.issued)) := by
  have noMembers : ¬ ((members.map Name.text).any fun client => !validateName client) := by
    simp [Name.valid]
  have action : clientCommand c.name (createGroupText groupName members) = .ok .request := by
    rw [clientCommand, parse_createGroupText groupName members short]
    dsimp only
    rw [groupName.valid, Bool.not_true, if_neg Bool.false_ne_true, if_neg other.symm,
      if_neg noMembers]
  rw [Connection.command, if_pos ⟨idle, nothing⟩, action]

theorem command_sendText {name : Name} {message : CppString} (noNul : nul ∉ message)
    (short : (sendText name message).length < waMaxInput) {c : Connection}
    (idle : c.phase = .idle) (nothing : c.arrived = []) (other : c.name ≠ name.text) :
    c.command (sendText name message) =
      some (c.issue (sendText name message) (.awaiting c.issued)) := by
  have action : clientCommand c.name (sendText name message) = .ok .request := by
    rw [clientCommand, parse_sendText name noNul short]
    dsimp only
    rw [name.valid, if_neg (by simpa using other.symm)]
  rw [Connection.command, if_pos ⟨idle, nothing⟩, action]

/-- **Commands are read as what they were made from.** Whatever the output
arguments held before, a command put together with single spaces gives back its
parts. So the client, which checks its own reading and sends the text, and the
server, which reads the text again, act on the same arguments. -/
theorem command_round_trip :
    (∀ (groupName : Name) (members : List Name),
      (createGroupText groupName members).length < waMaxInput →
        (∀ outputs, parseCommandInto outputs (createGroupText groupName members) =
          .ok { commandT := .createGroup, name := groupName.text, message := [],
                clients := members.map Name.text }) ∧
        (∀ c : Connection, c.phase = .idle → c.arrived = [] → c.name ≠ groupName.text →
          c.command (createGroupText groupName members) =
            some (c.issue (createGroupText groupName members) (.awaiting c.issued))) ∧
        ∀ server client wire,
          handleClientRequest server client (some (createGroupText groupName members)) wire =
            .ok (createGroup server client groupName.text (members.map Name.text) wire)) ∧
    ∀ (name : Name) (message : CppString), nul ∉ message →
      (sendText name message).length < waMaxInput →
        (∀ outputs, parseCommandInto outputs (sendText name message) =
          .ok { commandT := .send, name := name.text, message, clients := [] }) ∧
        (∀ c : Connection, c.phase = .idle → c.arrived = [] → c.name ≠ name.text →
          c.command (sendText name message) =
            some (c.issue (sendText name message) (.awaiting c.issued))) ∧
        ∀ server client wire,
          handleClientRequest server client (some (sendText name message)) wire =
            .ok (send server client name.text message wire) := by
  constructor
  · intro groupName members short
    have parsed := parse_createGroupText groupName members short
    refine ⟨fun outputs => (parseCommandInto_eq outputs _).trans parsed, ?_, ?_⟩
    · exact fun c idle nothing other => command_createGroupText short idle nothing other
    · intro server client wire
      rw [handleClientRequest, parsed]
      rfl
  · intro name message noNul short
    have parsed := parse_sendText name noNul short
    refine ⟨fun outputs => (parseCommandInto_eq outputs _).trans parsed, ?_, ?_⟩
    · exact fun c idle nothing other => command_sendText noNul short idle nothing other
    · intro server client wire
      rw [handleClientRequest, parsed]
      rfl

theorem command_round_trip_team :
    (∀ outputs, parseCommandInto outputs "create_group team ann,bob".toList =
      .ok { commandT := .createGroup, name := "team".toList,
            clients := ["ann".toList, "bob".toList] }) ∧
    ∀ outputs, parseCommandInto outputs "send bob hi, ann".toList =
      .ok { commandT := .send, name := "bob".toList, message := "hi, ann".toList } := by
  let team : Name := ⟨"team".toList, by decide, by decide⟩
  let ann : Name := ⟨"ann".toList, by decide, by decide⟩
  let bob : Name := ⟨"bob".toList, by decide, by decide⟩
  have group : createGroupText team [ann, bob] = "create_group team ann,bob".toList := by
    decide +kernel
  have chat : sendText bob "hi, ann".toList = "send bob hi, ann".toList := by decide +kernel
  constructor
  · rw [← group]
    exact (command_round_trip.1 team [ann, bob] (by decide +kernel)).1
  · rw [← chat]
    exact (command_round_trip.2 bob "hi, ann".toList (by decide) (by decide +kernel)).1

end Os2018.Whatsapp
