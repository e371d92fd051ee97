import Os2018.Library.ByteStream
import Os2018.Whatsapp.Common

/-!
# Frames on a byte stream

`send_data` copies a message into a zeroed buffer and writes the first
`WA_MAX_INPUT` bytes of it; `read_data` reads `WA_MAX_INPUT` bytes and returns
the C string at the start of its buffer. Both loop, because one `write` or
`read` call may transfer only a part of what it is asked for. The values that
the successive calls return are a parameter of the model, and the stream
between the two ends is the list of bytes written and not yet read.

The writer moves its cursor `bp` along the buffer and passes it to `write`.
The reader moves `bp` as well but passes the start of the buffer to `read`, so
every piece lands on the previous one. A message survives exactly when it is
empty or its frame is read in one piece (`readData_sendData_iff`).
-/

set_option autoImplicit false

namespace Os2018.Whatsapp

open ByteStream

/-! ## The two loops -/

/-- `char buf[WA_MAX_INPUT + 1] = {0}`. -/
def zeroBuffer : CppString := List.replicate (waMaxInput + 1) nul

/-- The loop of `send_data`. The list holds what the successive `write` calls
return; the run has no result when a call never returns. -/
def sendLoop (buf : CppString) : List Int → Nat → Nat → CppString → Option (Int × CppString)
  | [], _, bcount, wire => if bcount < waMaxInput then none else some (bcount, wire)
  | br :: results, bp, bcount, wire =>
      if bcount < waMaxInput then
        if 0 < br then
          sendLoop buf results (bp + br.toNat) (bcount + br.toNat)
            (wire ++ (buf.drop bp).take br.toNat)
        else some (-1, wire)
      else some (bcount, wire)

/-- `send_data`: the value it returns and the stream afterwards. A message
longer than the buffer makes `memcpy` write past its end. -/
def sendData (results : List Int) (message wire : CppString) : Option (Int × CppString) :=
  if message.length ≤ waMaxInput + 1 then
    sendLoop (overwrite zeroBuffer 0 message) results 0 0 wire
  else none

/-- The loop of `read_data`. The list holds what the successive `read` calls
return. A call copies its bytes to the start of `buf`: the cursor `bp` is
moved and never used. -/
def readLoop : List Int → CppString → Nat → Nat → CppString →
    Option (Int × CppString × CppString)
  | [], buf, _, bcount, wire => if bcount < waMaxInput then none else some (bcount, buf, wire)
  | br :: results, buf, bp, bcount, wire =>
      if bcount < waMaxInput then
        if 0 < br then
          if br.toNat ≤ wire.length then
            readLoop results (overwrite buf 0 (wire.take br.toNat)) (bp + br.toNat)
              (bcount + br.toNat) (wire.drop br.toNat)
          else none
        else some (-1, buf, wire)
      else some (bcount, buf, wire)

/-- `read_data`: the value it returns, the output string and the stream
afterwards. The output string is assigned only on success. -/
def readData (results : List Int) (message wire : CppString) :
    Option (Int × CppString × CppString) :=
  match readLoop results zeroBuffer 0 0 wire with
  | none => none
  | some (bcount, buf, rest) =>
      if bcount < 0 then some (bcount, message, rest) else some (bcount, cString buf, rest)

/-! ## Ways to cut a frame -/

/-- The positive sizes in which the calls of one loop transfer one frame. -/
structure Transfer where
  sizes : List Nat
  positive : ∀ size ∈ sizes, 0 < size
  total : sizes.sum = waMaxInput

/-- What the calls return. -/
def Transfer.results (transfer : Transfer) : List Int := transfer.sizes.map Nat.cast

/-- A string that a frame can carry: no NUL byte, and no longer than the
frame. -/
structure Message where
  text : CppString
  noNul : nul ∉ text
  fits : text.length ≤ waMaxInput

/-- The bytes of the frame of a message. -/
def Message.frame (message : Message) : CppString :=
  message.text ++ List.replicate (waMaxInput - message.text.length) nul

@[simp] theorem Message.length_frame (message : Message) :
    message.frame.length = waMaxInput := by
  have := message.fits
  simp only [frame, List.length_append, List.length_replicate]
  omega

theorem Message.buffer_eq (message : Message) :
    overwrite zeroBuffer 0 message.text = message.frame ++ [nul] := by
  have fits := message.fits
  have count : waMaxInput + 1 - message.text.length
      = waMaxInput - message.text.length + 1 := by omega
  rw [overwrite_zero, zeroBuffer, List.drop_replicate, frame, List.append_assoc, count,
    List.replicate_succ']

/-- Past its text a frame holds only NUL bytes. -/
theorem Message.frame_getElem?_of_le (message : Message) {position : Nat}
    (past : message.text.length ≤ position) (inside : position < waMaxInput) :
    message.frame[position]? = some nul := by
  rw [frame, List.getElem?_append_right past]
  exact List.getElem?_replicate_of_lt (by omega)

/-! ## What the writer puts on the stream -/

theorem sendLoop_eq (buf : CppString) (sizes : List Nat) (positive : ∀ size ∈ sizes, 0 < size)
    (bp bcount : Nat) (wire : CppString) (total : bcount + sizes.sum = waMaxInput) :
    sendLoop buf (sizes.map Nat.cast) bp bcount wire =
      some ((waMaxInput : Int), wire ++ (buf.drop bp).take sizes.sum) := by
  induction sizes generalizing bp bcount wire with
  | nil =>
      have full : bcount = waMaxInput := by simpa using total
      simp [sendLoop, full]
  | cons size sizes ih =>
      have hpos := positive size List.mem_cons_self
      rw [List.sum_cons] at total
      have more : bcount < waMaxInput := by omega
      have casted : (0 : Int) < (size : Int) := by omega
      simp only [List.map_cons, sendLoop, more, casted, if_true, Int.toNat_natCast]
      rw [ih (fun other member => positive other (List.mem_cons_of_mem _ member)) _ _ _
        (by omega)]
      rw [List.append_assoc, ← List.drop_drop, List.sum_cons, List.take_add]

/-- **Every way of writing puts the frame of the message on the stream.** -/
theorem sendData_eq (writes : Transfer) (message : Message) (wire : CppString) :
    sendData writes.results message.text wire =
      some ((waMaxInput : Int), wire ++ message.frame) := by
  have fits : message.text.length ≤ waMaxInput + 1 := Nat.le_succ_of_le message.fits
  rw [sendData, if_pos fits, Transfer.results,
    sendLoop_eq _ _ writes.positive _ _ _ (by simpa using writes.total), message.buffer_eq,
    List.drop_zero, writes.total, List.take_left' message.length_frame]

/-! ## What the reader makes of it -/

theorem readLoop_eq (sizes : List Nat) (positive : ∀ size ∈ sizes, 0 < size)
    (buf : CppString) (bp bcount : Nat) (wire : CppString)
    (total : bcount + sizes.sum = waMaxInput) (enough : sizes.sum ≤ wire.length) :
    readLoop (sizes.map Nat.cast) buf bp bcount wire =
      some ((waMaxInput : Int), overlay buf (sizes.splitLengths wire),
        wire.drop sizes.sum) := by
  induction sizes generalizing buf bp bcount wire with
  | nil =>
      have full : bcount = waMaxInput := by simpa using total
      simp [readLoop, full]
  | cons size sizes ih =>
      have hpos := positive size List.mem_cons_self
      rw [List.sum_cons] at total enough
      have more : bcount < waMaxInput := by omega
      have casted : (0 : Int) < (size : Int) := by omega
      have available : size ≤ wire.length := by omega
      simp only [List.map_cons, readLoop, more, casted, available, if_true, Int.toNat_natCast]
      rw [ih (fun other member => positive other (List.mem_cons_of_mem _ member)) _ _ _ _
        (by omega) (by rw [List.length_drop]; omega)]
      simp only [List.splitLengths_cons, overlay_cons, List.drop_drop, List.sum_cons]

/-- The buffer of the reader after a frame has been read. -/
def readBuffer (reads : Transfer) (message : Message) : CppString :=
  overlay zeroBuffer (reads.sizes.splitLengths message.frame)

theorem splitLengths_append_right (sizes : List Nat) (first second : CppString)
    (enough : sizes.sum ≤ first.length) :
    sizes.splitLengths (first ++ second) = sizes.splitLengths first := by
  induction sizes generalizing first with
  | nil => simp
  | cons size sizes ih =>
      rw [List.sum_cons] at enough
      have reach : size ≤ first.length := by omega
      rw [List.splitLengths_cons, List.splitLengths_cons, List.take_append_of_le_length reach,
        List.drop_append_of_le_length reach, ih _ (by rw [List.length_drop]; omega)]

/-- One call of `read_data` takes one frame off the stream and always
succeeds. -/
theorem readData_eq (reads : Transfer) (message : Message) (old wire : CppString) :
    readData reads.results old (message.frame ++ wire) =
      some ((waMaxInput : Int), cString (readBuffer reads message), wire) := by
  have enough : reads.sizes.sum ≤ (message.frame ++ wire).length := by
    rw [reads.total, List.length_append, message.length_frame]
    omega
  have loop := readLoop_eq reads.sizes reads.positive zeroBuffer 0 0 (message.frame ++ wire)
    (by simpa using reads.total) enough
  have inFrame : reads.sizes.sum ≤ message.frame.length := by
    rw [reads.total, message.length_frame]
  rw [splitLengths_append_right _ _ _ inFrame, reads.total,
    List.drop_left' message.length_frame] at loop
  simp only [readData, Transfer.results, loop, readBuffer]
  simp

/-! ## When the message survives -/

theorem cString_eq_of_noNul {text rest : CppString} (noNul : nul ∉ text) :
    cString (text ++ nul :: rest) = text := by
  have all : ∀ x ∈ text, (decide (x ≠ nul)) = true := by
    intro x member
    simpa using fun same : x = nul => noNul (same ▸ member)
  rw [cString, List.takeWhile_append_of_pos all]
  simp

/-- A buffer whose C string is the text starts with the text. -/
theorem getElem?_of_cString_eq {buf text : CppString} (same : cString buf = text)
    {position : Nat} (inside : position < text.length) :
    buf[position]? = text[position]? := by
  obtain ⟨rest, split⟩ : ∃ rest, text ++ rest = buf :=
    same ▸ List.takeWhile_prefix _
  rw [← split, List.getElem?_append_left inside]

/-- An empty message leaves the buffer zero. -/
theorem cString_readBuffer_of_empty (reads : Transfer) {message : Message}
    (empty : message.text = []) : cString (readBuffer reads message) = message.text := by
  have zeros : ∀ x ∈ readBuffer reads message, x = nul := by
    refine overlay_replicate (fun x member => List.eq_of_mem_replicate member) ?_
    intro piece member x inPiece
    have inFrame := mem_of_mem_splitLengths member inPiece
    rw [Message.frame, empty, List.nil_append] at inFrame
    exact List.eq_of_mem_replicate inFrame
  rw [empty, cString]
  cases shape : readBuffer reads message with
  | nil => rfl
  | cons first rest => simp [zeros first (shape ▸ List.mem_cons_self)]

/-- A frame read in one piece is read as it was written. -/
theorem cString_readBuffer_of_single (reads : Transfer) {message : Message}
    (single : reads.sizes = [waMaxInput]) :
    cString (readBuffer reads message) = message.text := by
  have whole : readBuffer reads message = message.frame ++ [nul] := by
    rw [readBuffer, single, List.splitLengths_cons, List.splitLengths_nil, overlay_cons,
      overlay_nil, List.take_of_length_le (Nat.le_of_eq message.length_frame), overwrite_zero,
      message.length_frame, zeroBuffer, List.drop_replicate]
    simp
  rw [whole, Message.frame, List.append_assoc, ← List.replicate_succ', List.replicate_succ]
  exact cString_eq_of_noNul message.noNul

/-- **A non-empty message whose frame is read in several pieces is lost.** The
start of the buffer is the end of the frame: behind a text that fits it there
is only NUL, and a text that does not fit it is longer than any piece. -/
theorem cString_readBuffer_ne (reads : Transfer) {message : Message}
    (nonempty : message.text ≠ []) (several : reads.sizes ≠ [waMaxInput]) :
    cString (readBuffer reads message) ≠ message.text := by
  intro same
  have total := reads.total
  have hpos := waMaxInput_pos
  have hlength : 0 < message.text.length := List.length_pos_iff.mpr nonempty
  have textByte : ∀ position < message.text.length,
      (readBuffer reads message)[position]? ≠ some nul := by
    intro position inside isNul
    rw [getElem?_of_cString_eq same inside] at isNul
    exact message.noNul (List.mem_of_getElem? isNul)
  rcases List.eq_nil_or_concat reads.sizes with none | ⟨before, last, sizes⟩
  · rw [none, List.sum_nil] at total
    omega
  rw [List.concat_eq_append] at sizes
  have two : 2 ≤ reads.sizes.length := by
    rcases before with - | ⟨first, before⟩
    · rw [sizes, List.nil_append] at total several
      simp only [List.sum_singleton] at total
      exact absurd (by rw [total]) several
    · rw [sizes]
      simp
  have lastShort : last < waMaxInput :=
    total ▸ lt_sum_of_mem reads.positive two (by rw [sizes]; simp)
  have lastPos : 0 < last := reads.positive last (by rw [sizes]; simp)
  have beforeSum : before.sum + last = waMaxInput := by
    rw [sizes, List.sum_append, List.sum_singleton] at total
    exact total
  -- what the last piece leaves at the start of the buffer
  have start : ∀ position < last, (readBuffer reads message)[position]? =
      message.frame[before.sum + position]? := by
    intro position inside
    have pieceLength : ((message.frame.drop before.sum).take last).length = last := by
      rw [List.length_take, List.length_drop, message.length_frame]
      omega
    rw [readBuffer, sizes, splitLengths_concat, overlay_concat,
      List.getElem?_append_left (by omega), List.getElem?_take_of_lt inside,
      List.getElem?_drop]
  by_cases fitsPiece : message.text.length ≤ last
  · apply textByte (message.text.length - 1) (by omega)
    rw [start _ (by omega)]
    exact message.frame_getElem?_of_le (by omega) (by omega)
  · by_cases full : message.text.length = waMaxInput
    · apply textByte (waMaxInput - 1) (by omega)
      rw [readBuffer, getElem?_overlay]
      · exact List.getElem?_replicate_of_lt (by omega)
      · intro piece member
        refine length_le_of_mem_splitLengths ?_ member
        intro size inSizes
        have := lt_sum_of_mem reads.positive two inSizes
        omega
    · have := message.fits
      apply textByte (last - 1) (by omega)
      rw [start _ (by omega)]
      exact message.frame_getElem?_of_le (by omega) (by omega)

theorem cString_readBuffer_iff (reads : Transfer) (message : Message) :
    cString (readBuffer reads message) = message.text ↔
      message.text = [] ∨ reads.sizes = [waMaxInput] := by
  constructor
  · intro same
    by_contra neither
    rw [not_or] at neither
    exact cString_readBuffer_ne reads neither.1 neither.2 same
  · rintro (empty | single)
    · exact cString_readBuffer_of_empty reads empty
    · exact cString_readBuffer_of_single reads single

/-! ## Messages sent back to back -/

/-- One message, with the pieces of its `write` calls and of the `read` calls
that take its frame off the stream. -/
structure Delivery where
  message : Message
  writes : Transfer
  reads : Transfer

/-- `send_data` for every message in turn: the values returned and the stream
afterwards. -/
def sendEach : List Delivery → CppString → Option (List Int × CppString)
  | [], wire => some ([], wire)
  | delivery :: rest, wire =>
      match sendData delivery.writes.results delivery.message.text wire with
      | none => none
      | some (bcount, wire) => (sendEach rest wire).map fun (counts, wire) =>
          (bcount :: counts, wire)

/-- The same number of `read_data` calls: the values returned with the output
strings, and the stream afterwards. Every call finds the string `old`. -/
def readEach (old : CppString) :
    List Delivery → CppString → Option (List (Int × CppString) × CppString)
  | [], wire => some ([], wire)
  | delivery :: rest, wire =>
      match readData delivery.reads.results old wire with
      | none => none
      | some (bcount, message, wire) => (readEach old rest wire).map fun (outputs, wire) =>
          ((bcount, message) :: outputs, wire)

theorem sendEach_eq (deliveries : List Delivery) (wire : CppString) :
    sendEach deliveries wire =
      some (deliveries.map fun _ => (waMaxInput : Int),
        wire ++ deliveries.flatMap fun delivery => delivery.message.frame) := by
  induction deliveries generalizing wire with
  | nil => simp [sendEach]
  | cons delivery rest ih =>
      simp only [sendEach, sendData_eq, ih, Option.map_some, List.map_cons, List.flatMap_cons,
        List.append_assoc]

theorem readEach_eq (old : CppString) (deliveries : List Delivery) (wire : CppString) :
    readEach old deliveries
        ((deliveries.flatMap fun delivery => delivery.message.frame) ++ wire) =
      some (deliveries.map fun delivery =>
        ((waMaxInput : Int), cString (readBuffer delivery.reads delivery.message)), wire) := by
  induction deliveries with
  | nil => simp [readEach]
  | cons delivery rest ih =>
      simp only [readEach, List.flatMap_cons, List.append_assoc, readData_eq, ih,
        Option.map_some, List.map_cons]

/-- **The round trip of the codec.** However the frames are cut on both sides,
every `send_data` succeeds and every `read_data` succeeds; the strings read are
the messages, in order, exactly when every non-empty message has its frame read
in one piece. -/
theorem readData_sendData_iff (deliveries : List Delivery) (old : CppString) :
    ∃ counts wire outputs, sendEach deliveries [] = some (counts, wire) ∧
      (∀ count ∈ counts, count = waMaxInput) ∧
      readEach old deliveries wire = some (outputs, []) ∧
      (∀ output ∈ outputs, output.1 = waMaxInput) ∧
      (outputs.map Prod.snd = deliveries.map (fun delivery => delivery.message.text) ↔
        ∀ delivery ∈ deliveries,
          delivery.message.text = [] ∨ delivery.reads.sizes = [waMaxInput]) := by
  have sent := sendEach_eq deliveries []
  have read := readEach_eq old deliveries []
  rw [List.append_nil] at read
  rw [List.nil_append] at sent
  refine ⟨_, _, _, sent, ?_, read, ?_, ?_⟩
  · intro count member
    obtain ⟨_, _, rfl⟩ := List.mem_map.mp member
    rfl
  · intro output member
    obtain ⟨_, _, rfl⟩ := List.mem_map.mp member
    rfl
  · rw [List.map_map, List.map_inj_left]
    exact forall₂_congr fun delivery _ =>
      cString_readBuffer_iff delivery.reads delivery.message

/-- The frame of the text `ab`, read in two pieces, is read as the text `b`. -/
theorem short_read_loses_text :
    (sendData [1612] "ab".toList []).bind (fun sent => readData [1, 1611] [] sent.2) =
        some (1612, "b".toList, []) ∧ "b".toList ≠ "ab".toList := by
  decide +kernel

end Os2018.Whatsapp
