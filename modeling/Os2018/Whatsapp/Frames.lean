import Os2018.Whatsapp.Delivery
import Os2018.Whatsapp.Parsing

/-!
# The lengths of the frames the server sends

`send_data` copies a string into a buffer of `WA_MAX_INPUT` and one bytes and
writes `WA_MAX_INPUT` of them. The fixed responses are short. The text of a chat
message is put together from the name of the sender and a part of the command,
and the reply to `who` from the names of all clients; each of these parts comes
from a frame of its own, so their sum may be too long.

`frames_fit_iff` says for which lengths every string fits, whatever becomes of
the single calls of `send_data`.
-/

set_option autoImplicit false

namespace Os2018.Whatsapp

open Transition

/-! ## Statement -/

/-- Every string that the server passes to `send_data` for the command fits a
frame. -/
def FramesFit (server : WhatsappServer) (client : Client) (command : CppString) : Prop :=
  ∀ outcomes after wire,
    handleClientRequest server client (some command) ⟨[], outcomes⟩ = .ok (after, wire) →
      ∀ attempt ∈ wire.attempts, attempt.frame.length ≤ waMaxInput

/-- What is put together for the command is no longer than the limit. -/
def LengthsWithin (limit : Nat) (server : WhatsappServer) (client command : CppString)
    (parsed : ParsedCommand) : Prop :=
  match parsed.commandT with
  | .send => recipients server client parsed.name = [] ∨
      client.length + command.length ≤ limit + parsed.name.length + 4
  | .who => (server.clients.keys.map List.length).sum + server.clients.keys.length ≤ limit + 1
  | _ => True

/-- The lengths that the server would have to check. -/
def LengthsFit (server : WhatsappServer) (client command : CppString) (parsed : ParsedCommand) :
    Prop :=
  LengthsWithin waMaxInput server client command parsed

/-! ## Frames of a request -/

section Sent

variable {P : CppString → Prop} {server : WhatsappServer} {client : Client} {wire : Wire}

theorem Wire.send_frames {fd : Int} {frame : CppString} {role : Role}
    (sent : ∀ attempt ∈ wire.attempts, P attempt.frame) (next : P frame) :
    ∀ attempt ∈ (wire.send fd frame role).2.attempts, P attempt.frame := by
  intro attempt member
  rcases List.mem_append.mp member with earlier | last
  · exact sent attempt earlier
  · rw [List.mem_singleton.mp last]
    exact next

/-- No call has failed, so the marker was delivered. -/
theorem forward_delivered (server : WhatsappServer) (clientName command : CppString) (wire : Wire)
    (succeeded : (forward server clientName command wire).1 = false) :
    wire.outcomes.headD true = true := by
  rw [forward] at succeeded
  dsimp only at succeeded
  split_ifs at succeeded with failed
  simpa [Wire.send] using failed

/-- The text is only sent behind a marker that was delivered. -/
theorem forward_frames {clientName command : CppString}
    (sent : ∀ attempt ∈ wire.attempts, P attempt.frame) (marker : P sendQue)
    (text : wire.outcomes.headD true = true → P command) :
    ∀ attempt ∈ (forward server clientName command wire).2.2.attempts, P attempt.frame := by
  rw [forward]
  dsimp only
  split_ifs with failed
  · exact Wire.send_frames sent marker
  · refine Wire.send_frames (Wire.send_frames sent marker) (text ?_)
    simpa [Wire.send] using failed

theorem forwardToMembers_frames {command : CppString} {members : List CppString}
    (sent : ∀ attempt ∈ wire.attempts, P attempt.frame) (marker : P sendQue)
    (text : members.filter (· ≠ client.1) ≠ [] → wire.outcomes.headD true = true → P command) :
    ∀ attempt ∈ (forwardToMembers client command members server wire).2.2.attempts,
      P attempt.frame := by
  induction members generalizing server wire with
  | nil => exact sent
  | cons clientName members ih =>
      rw [forwardToMembers]
      split_ifs with isSender
      · apply ih sent
        intro others
        apply text
        rwa [List.filter_cons_of_neg (by simpa using isSender)]
      · have isText : wire.outcomes.headD true = true → P command := by
          apply text
          rw [List.filter_cons_of_pos (by simpa using isSender)]
          exact List.cons_ne_nil _ _
        have first : ∀ attempt ∈ (forward server clientName command wire).2.2.attempts,
            P attempt.frame := forward_frames sent marker isText
        have delivered := forward_delivered server clientName command wire
        rcases result : forward server clientName command wire with ⟨failed, after, wire'⟩
        rw [result] at first delivered
        cases failed with
        | true => exact first
        | false => exact ih first fun _ _ => isText (delivered rfl)

theorem send_frames {sendTo message : CppString} {outcomes : List Bool} (marker : P sendQue)
    (text : recipients server client.1 sendTo ≠ [] → outcomes.headD true = true →
      P (chatText client message))
    (failure : P failureSignal) (success : P successSignal) :
    ∀ attempt ∈ (send server client sendTo message ⟨[], outcomes⟩).2.attempts,
      P attempt.frame := by
  have nothing : ∀ attempt ∈ (⟨[], outcomes⟩ : Wire).attempts, P attempt.frame := by simp
  have outcome : ∀ failed, P (sendOutcome failed) := by
    intro failed
    cases failed with
    | true => exact failure
    | false => exact success
  rw [send]
  rw [recipients] at text
  dsimp only
  split_ifs with isClient
  · rw [if_pos isClient] at text
    exact Wire.send_frames (forward_frames nothing marker (text (List.cons_ne_nil _ _))) (outcome _)
  · rw [if_neg isClient] at text
    cases found : server.groups.find? sendTo with
    | none => exact Wire.send_frames nothing failure
    | some members =>
        rw [found] at text
        dsimp only at text ⊢
        split_ifs at text ⊢ with inGroup
        · exact Wire.send_frames (forwardToMembers_frames nothing marker text) (outcome _)
        · exact Wire.send_frames nothing failure

/-- Behind a delivered marker the text is sent. -/
theorem forward_text (server : WhatsappServer) (clientName command : CppString) (wire : Wire)
    (delivered : wire.outcomes.headD true = true) :
    ∃ attempt ∈ (forward server clientName command wire).2.2.attempts,
      attempt.frame = command := by
  have notFailed : ¬ (wire.send (clientsIndex server clientName).1 sendQue .marker).1 = true := by
    simpa [Wire.send] using delivered
  rw [forward]
  dsimp only
  rw [if_neg notFailed]
  exact ⟨_, List.mem_append_right _ (List.mem_singleton_self _), rfl⟩

/-- What has been sent stays sent. -/
theorem forwardToMembers_sent {command : CppString} {members : List CppString}
    {attempt : Attempt} (sent : attempt ∈ wire.attempts) :
    attempt ∈ (forwardToMembers client command members server wire).2.2.attempts := by
  induction members generalizing server wire with
  | nil => exact sent
  | cons clientName members ih =>
      rw [forwardToMembers]
      split_ifs
      · exact ih sent
      · have first : attempt ∈ (forward server clientName command wire).2.2.attempts := by
          rw [forward]
          dsimp only
          split_ifs
          · exact List.mem_append_left _ sent
          · exact List.mem_append_left _ (List.mem_append_left _ sent)
        rcases result : forward server clientName command wire with ⟨failed, after, wire'⟩
        rw [result] at first
        cases failed with
        | true => exact first
        | false => exact ih first

theorem forwardToMembers_text (server : WhatsappServer) (command : CppString) (wire : Wire)
    {members : List CppString} (others : members.filter (· ≠ client.1) ≠ [])
    (delivered : wire.outcomes.headD true = true) :
    ∃ attempt ∈ (forwardToMembers client command members server wire).2.2.attempts,
      attempt.frame = command := by
  induction members with
  | nil => exact absurd rfl others
  | cons clientName members ih =>
      rw [forwardToMembers]
      split_ifs with isSender
      · apply ih
        rwa [List.filter_cons_of_neg (by simpa using isSender)] at others
      · obtain ⟨attempt, sent, isText⟩ := forward_text server clientName command wire delivered
        rcases result : forward server clientName command wire with ⟨failed, after, wire'⟩
        rw [result] at sent
        cases failed with
        | true => exact ⟨attempt, sent, isText⟩
        | false => exact ⟨attempt, forwardToMembers_sent sent, isText⟩

theorem send_text (client : Client) {sendTo : CppString} (message : CppString)
    {outcomes : List Bool} (somebody : recipients server client.1 sendTo ≠ [])
    (delivered : outcomes.headD true = true) :
    ∃ attempt ∈ (send server client sendTo message ⟨[], outcomes⟩).2.attempts,
      attempt.frame = chatText client message := by
  rw [recipients] at somebody
  rw [send]
  dsimp only
  split_ifs at somebody ⊢ with isClient
  · obtain ⟨attempt, sent, isText⟩ :=
      forward_text server sendTo (chatText client message) ⟨[], outcomes⟩ delivered
    exact ⟨attempt, List.mem_append_left _ sent, isText⟩
  · cases found : server.groups.find? sendTo with
    | none =>
        rw [found] at somebody
        exact absurd rfl somebody
    | some members =>
        rw [found] at somebody
        dsimp only at somebody ⊢
        split_ifs at somebody ⊢ with inGroup
        · obtain ⟨attempt, sent, isText⟩ := forwardToMembers_text server
            (chatText client message) ⟨[], outcomes⟩ somebody delivered
          exact ⟨attempt, List.mem_append_left _ sent, isText⟩
        · exact absurd rfl somebody

theorem createGroup_frames {groupName : CppString} {group : List CppString}
    {outcomes : List Bool} (nameExists : P nameExistsSignal) (failure : P failureSignal)
    (success : P successSignal) :
    ∀ attempt ∈ (createGroup server client groupName group ⟨[], outcomes⟩).2.attempts,
      P attempt.frame := by
  have nothing : ∀ attempt ∈ (⟨[], outcomes⟩ : Wire).attempts, P attempt.frame := by simp
  rw [createGroup]
  dsimp only
  split_ifs
  · exact Wire.send_frames nothing nameExists
  · exact Wire.send_frames nothing failure
  · exact Wire.send_frames nothing success
  · exact Wire.send_frames nothing failure

end Sent

/-- What becomes of a command that is parsed. -/
theorem handle_parsed {command : CppString} {parsed : ParsedCommand}
    (isParsed : parseCommand command = .ok parsed) (server : WhatsappServer) (client : Client)
    (wire : Wire) : handleClientRequest server client (some command) wire =
      .ok (match parsed.commandT with
        | .createGroup => createGroup server client parsed.name parsed.clients wire
        | .send => send server client parsed.name parsed.message wire
        | .who => who server client wire
        | .exit => (clientExit server client, wire)
        | .invalid => (server, wire)) := by
  obtain ⟨commandT, name, message, clients⟩ := parsed
  rw [handleClientRequest, isParsed]
  cases commandT <;> rfl

theorem forall_ok_iff {result : WhatsappServer × Wire} {Q : Wire → Prop} :
    (∀ after wire, (Except.ok result : Except ParseError _) = .ok (after, wire) → Q wire) ↔
      Q result.2 := by
  constructor
  · exact fun all => all result.1 result.2 rfl
  · rintro holds _ _ ⟨⟩
    exact holds

/-! ## Lengths -/

theorem length_chatText (client : Client) (message : CppString) :
    (chatText client message).length = client.1.length + message.length + 2 := by
  have colon : (": ".toList).length = 2 := rfl
  simp only [chatText, List.length_append, colon]
  omega

theorem length_joinComma (name : CppString) (names : List CppString) :
    (joinComma (name :: names)).length =
      ((name :: names).map List.length).sum + names.length := by
  induction names generalizing name with
  | nil => simp [joinComma]
  | cons next names ih =>
      have later := ih next
      rw [joinComma] at later ⊢
      rw [List.intercalate_cons_cons, List.length_append, later]
      simp only [List.length_append, List.length_cons, List.length_nil, List.map_cons,
        List.sum_cons]
      omega

/-! ## When every frame fits -/

section Fit

variable {server : WhatsappServer} {client command : CppString} {fd : Int}
  {parsed : ParsedCommand} {limit : Nat}

/-- The text of a chat message is as long as its sender and the command, less the
name and what else is cut off. -/
theorem chatText_within_iff (isParsed : parseCommand command = .ok parsed)
    (isSend : parsed.commandT = .send) :
    (chatText (client, fd) parsed.message).length ≤ limit ↔
      client.length + command.length ≤ limit + parsed.name.length + 4 := by
  obtain ⟨-, -, -, -, -, -, inside, message⟩ := exists_sendLayout isParsed isSend
  rw [length_chatText, message, List.length_drop]
  dsimp only
  omega

theorem joinComma_within_iff (connected : client ∈ server.clients.keys) :
    (joinComma server.clients.keys).length ≤ limit ↔
      (server.clients.keys.map List.length).sum + server.clients.keys.length ≤ limit + 1 := by
  obtain ⟨name, names, keys⟩ := List.exists_cons_of_ne_nil (List.ne_nil_of_mem connected)
  rw [keys, length_joinComma, List.length_cons]
  omega

/-- The strings that stand in the source. -/
structure SignalsFit (limit : Nat) : Prop where
  marker : sendQue.length ≤ limit
  failure : failureSignal.length ≤ limit
  success : successSignal.length ≤ limit
  nameExists : nameExistsSignal.length ≤ limit

theorem signalsFit (enough : waMaxInput ≤ limit) : SignalsFit limit where
  marker := le_trans (by decide) enough
  failure := le_trans (by decide) enough
  success := le_trans (by decide) enough
  nameExists := le_trans (by decide) enough

/-- The frames of a `send` are within the limit if nobody is sent the text, the
first marker fails, or the text is. -/
theorem send_within_iff (signals : SignalsFit limit) (sendTo message : CppString)
    (outcomes : List Bool) :
    (∀ attempt ∈ (send server (client, fd) sendTo message ⟨[], outcomes⟩).2.attempts,
        attempt.frame.length ≤ limit) ↔
      recipients server client sendTo = [] ∨ outcomes.headD true = false ∨
        (chatText (client, fd) message).length ≤ limit := by
  constructor
  · intro within
    by_cases nobody : recipients server client sendTo = []
    · exact .inl nobody
    · refine .inr ((Bool.eq_false_or_eq_true _).symm.imp_right fun delivered => ?_)
      obtain ⟨attempt, sent, isText⟩ := send_text (client, fd) message nobody delivered
      exact isText ▸ within attempt sent
  · intro lengths
    refine send_frames (P := fun frame => frame.length ≤ limit) signals.marker
      (fun somebody delivered => ?_) signals.failure signals.success
    refine (lengths.resolve_left somebody).resolve_left fun failed => ?_
    cases failed.symm.trans delivered

/-- **The limit.** For a command of a connected client, the strings passed to
`send_data` are within a limit that the fixed ones keep, exactly if the lengths
are, or the text of a `send` is not reached. -/
theorem framesWithin_iff (registered : Registered server) (enough : waMaxInput ≤ limit)
    (connected : server.clients.find? client = some fd)
    (isParsed : parseCommand command = .ok parsed) (outcomes : List Bool) :
    (∀ after wire,
        handleClientRequest server (client, fd) (some command) ⟨[], outcomes⟩ = .ok (after, wire) →
          ∀ attempt ∈ wire.attempts, attempt.frame.length ≤ limit) ↔
      LengthsWithin limit server client command parsed ∨
        parsed.commandT = .send ∧ outcomes.headD true = false := by
  have signals := signalsFit enough
  rw [handle_parsed isParsed, forall_ok_iff, LengthsWithin]
  cases type : parsed.commandT with
  | send =>
      dsimp only
      rw [send_within_iff signals, chatText_within_iff isParsed type, and_iff_right rfl, or_assoc]
      exact or_congr_right or_comm
  | who =>
      dsimp only
      have reply := registered.who_attempts (client, fd) outcomes
      rw [reply, List.forall_mem_singleton,
        joinComma_within_iff (SortedMap.mem_keys.mpr ⟨fd, connected⟩)]
      simp
  | createGroup =>
      refine iff_of_true ?_ (.inl trivial)
      exact createGroup_frames (P := fun frame => frame.length ≤ limit) signals.nameExists
        signals.failure signals.success
  | exit | invalid =>
      exact iff_of_true (fun attempt sent => absurd sent List.not_mem_nil) (.inl trivial)

/-- **When every frame fits.** In every reachable server state and for every
command of a connected client that is parsed, every string passed to `send_data`
fits a frame, whatever the single calls return, exactly if the lengths do. -/
theorem frames_fit_iff {clientsfds : Finset Int}
    (reachable : (registry clientsfds).Reachable server)
    (connected : server.clients.find? client = some fd)
    (isParsed : parseCommand command = .ok parsed) :
    FramesFit server (client, fd) command ↔ LengthsFit server client command parsed := by
  have within := framesWithin_iff (registered_of_reachable reachable) le_rfl connected isParsed
  constructor
  · intro fits
    refine ((within []).mp (fits [])).resolve_right fun unreached => ?_
    cases unreached.2
  · exact fun lengths outcomes => (within outcomes).mpr (.inl lengths)

end Fit

/-- Two clients, one of them with a longer name. -/
def twoClients : List (Request × List Bool) :=
  [(.connect 4 (some "christopher".toList), []), (.connect 5 (some "bob".toList), [])]

theorem frames_fit_iff_who : ∃ server,
    exec registryNext (initialServer ∅) twoClients = some server ∧
      FramesFit server ("christopher".toList, 4) "who".toList := by
  refine ⟨_, rfl, ?_⟩
  have run : exec registryNext (initialServer ∅) twoClients = some _ := rfl
  have isParsed : parseCommand "who".toList = .ok { commandT := .who } := by decide +kernel
  refine Iff.mpr (frames_fit_iff (exec_reachable (.init rfl) run) ?_ isParsed) ?_
  · decide +kernel
  · rw [LengthsFit, LengthsWithin]
    decide +kernel

/-- **A text too long for its frame.** A command that `parseCommand` accepts has up
to `WA_MAX_INPUT` less one bytes; the text forwarded for this one has three bytes
more than a frame, and two more than the buffer of `send_data`. -/
theorem long_text_overruns_frame : ∃ server,
    exec registryNext (initialServer ∅) twoClients = some server ∧
      server.clients.find? "christopher".toList = some 4 ∧
      ∃ command : Message, ¬ FramesFit server ("christopher".toList, 4) command.text := by
  let bob : Name := ⟨"bob".toList, by decide, by decide⟩
  have noNul : nul ∉ List.replicate 1602 'x' := by
    rw [List.mem_replicate]
    decide
  have clean : nul ∉ sendText bob (List.replicate 1602 'x') :=
    nul_not_mem_command (by decide) bob noNul
  have length : (sendText bob (List.replicate 1602 'x')).length = 1611 := by
    have word : ("send ".toList).length = 5 := rfl
    have name : bob.text.length = 3 := rfl
    simp only [sendText, List.length_append, List.length_cons, List.length_replicate, word, name]
  have short : (sendText bob (List.replicate 1602 'x')).length < waMaxInput :=
    length ▸ by decide
  have isParsed := parse_sendText bob noNul short
  refine ⟨_, rfl, by decide +kernel, ⟨_, clean, le_of_lt short⟩, ?_⟩
  intro fits
  have text := fits [] _ _ (handle_parsed isParsed _ _ _)
    ⟨5, chatText ("christopher".toList, 4) (List.replicate 1602 'x'), .chat, true⟩
    (.tail _ (.head _))
  rw [length_chatText, List.length_replicate] at text
  exact absurd text (by decide)

end Os2018.Whatsapp
