import Os2018.Whatsapp.Frames
import Os2018.Whatsapp.Matching

/-!
# Every step of a session

Without the condition of `Undisturbed` a client may take any frame for a response.
It then drops the text behind a marker, and at `select` a response that came too
late. What it does not do is take anything else for a chat message or for an exit
notice: no other frame that the server writes looks like one (`Plain`). So a
client prints texts only, and each at most once (`Connection.Faithful`).

`Linked.moved` says what a step of the session does to a connection: it is new,
or it made one step of its own, or the server wrote to it what the chat log says
(`forwards`) and responses. Every session is `Linked`.
-/

set_option autoImplicit false

namespace Os2018.Whatsapp

open Transition

/-! ## The chat log -/

/-- A chat message that the server forwards. -/
structure ChatEntry where
  sender : CppString
  recipients : List CppString
  text : CppString
  deriving DecidableEq, Repr

/-- The chat message that a request line asks for. -/
def chatEntries (server : WhatsappServer) (client line : CppString) : List ChatEntry :=
  match parseCommand line with
  | .ok parsed =>
      if parsed.commandT = .send then
        [⟨client, recipients server client parsed.name, client ++ ": ".toList ++ parsed.message⟩]
      else []
  | .error _ => []

/-- The messages that a step forwards. -/
def forwards (s : Session) (event : SessionEvent) (_ : Session) : List ChatEntry :=
  match event with
  | .serve fd =>
      match s.connection fd with
      | some c => (c.requests.take 1).flatMap fun request => chatEntries s.server c.name request.2
      | none => []
  | _ => []

/-- The messages of a run. -/
def chatLog (s : Session) (events : List SessionEvent) : List ChatEntry :=
  trace Session.next forwards s events

/-- The texts of the messages to one name. -/
def textsFor (name : CppString) (log : List ChatEntry) : List CppString :=
  (log.filter fun entry => name ∈ entry.recipients).map ChatEntry.text

@[simp] theorem textsFor_append (name : CppString) (first second : List ChatEntry) :
    textsFor name (first ++ second) = textsFor name first ++ textsFor name second := by
  simp [textsFor]

/-! ## Frames that a client cannot mistake -/

/-- Neither a marker nor an exit notice. -/
def Plain (text : CppString) : Prop := text ≠ exitSignal ∧ text ≠ sendQue

instance (text : CppString) : Decidable (Plain text) :=
  inferInstanceAs (Decidable (text ≠ exitSignal ∧ text ≠ sendQue))

theorem plain_of_mem {text : CppString} {c : Byte} (member : c ∈ text)
    (notExit : c ∉ exitSignal) (notMarker : c ∉ sendQue) : Plain text :=
  ⟨fun same => notExit (same ▸ member), fun same => notMarker (same ▸ member)⟩

theorem plain_of_forall {text : CppString} (bytes : ∀ c ∈ text, isalnum c = true ∨ c = ',') :
    Plain text := by
  constructor
  · rintro rfl
    exact absurd (bytes '_' (by decide)) (by decide)
  · rintro rfl
    exact absurd (bytes '\n' (by decide)) (by decide)

theorem plain_chatText (client : Client) (message : CppString) :
    Plain (chatText client message) := by
  have colon : ':' ∈ chatText client message := by simp [chatText]
  exact plain_of_mem colon (by decide) (by decide)

theorem plain_whoList {names : List CppString}
    (valid : ∀ name ∈ names, validateName name = true) : Plain (whoList names) := by
  refine plain_of_forall fun c member => ?_
  obtain ⟨name, inNames, inside⟩ := List.mem_flatMap.mp (List.mem_of_mem_dropLast member)
  rcases List.mem_append.mp inside with inName | isComma
  · exact .inl (List.all_eq_true.mp (valid name inNames) c inName)
  · exact .inr (List.mem_singleton.mp isComma)

/-- The frames that the server writes for one connection: responses, whole chat
messages, and an exit notice once it has shut down. -/
inductive Framed (closed : Bool) : List Frame → Prop where
  | nil : Framed closed []
  | response {request : Nat} {text : CppString} {rest : List Frame} (plain : Plain text) :
      Framed closed rest → Framed closed (⟨text, .response request⟩ :: rest)
  | message {text : CppString} {rest : List Frame} (plain : Plain text) :
      Framed closed rest → Framed closed (⟨sendQue, .marker⟩ :: ⟨text, .chat⟩ :: rest)
  | exitNotice {rest : List Frame} (isClosed : closed = true) :
      Framed closed rest → Framed closed (⟨exitSignal, .exitNotice⟩ :: rest)

theorem Framed.append {closed : Bool} {first second : List Frame} (framed : Framed closed first)
    (framed' : Framed closed second) : Framed closed (first ++ second) := by
  induction framed with
  | nil => exact framed'
  | response plain _ ih => exact .response plain ih
  | message plain _ ih => exact .message plain ih
  | exitNotice isClosed _ ih => exact .exitNotice isClosed ih

theorem Framed.mono {closed closed' : Bool} {frames : List Frame} (framed : Framed closed frames)
    (later : closed = true → closed' = true) : Framed closed' frames := by
  induction framed with
  | nil => exact .nil
  | response plain _ ih => exact .response plain ih
  | message plain _ ih => exact .message plain ih
  | exitNotice isClosed _ ih => exact .exitNotice (later isClosed) ih

/-- The text of a message whose marker has been read, and whole frames behind
it. -/
inductive BehindMarker (closed : Bool) : List Frame → Prop where
  | text {text : CppString} {rest : List Frame} (plain : Plain text) :
      Framed closed rest → BehindMarker closed (⟨text, .chat⟩ :: rest)

theorem BehindMarker.append {closed : Bool} {first second : List Frame}
    (behind : BehindMarker closed first) (framed : Framed closed second) :
    BehindMarker closed (first ++ second) := by
  cases behind with
  | text plain rest => exact .text plain (rest.append framed)

theorem BehindMarker.mono {closed closed' : Bool} {frames : List Frame}
    (behind : BehindMarker closed frames) (later : closed = true → closed' = true) :
    BehindMarker closed' frames := by
  cases behind with
  | text plain rest => exact .text plain (rest.mono later)

/-- A connection whose client prints messages only. -/
structure Connection.Faithful (closed : Bool) (c : Connection) : Prop where
  whole : c.phase ≠ .awaitingText → Framed closed c.queue ∨ BehindMarker closed c.queue
  behind : c.phase = .awaitingText → BehindMarker closed c.queue
  inOrder : (c.printed ++ chatTexts c.queue).Sublist c.forwarded

theorem Connection.Faithful.either {closed : Bool} {c : Connection} (faithful : c.Faithful closed) :
    Framed closed c.queue ∨ BehindMarker closed c.queue := by
  by_cases behind : c.phase = .awaitingText
  · exact .inr (faithful.behind behind)
  · exact faithful.whole behind

/-! ## Steps of a connection -/

/-- What a step of the session can do to a connection. -/
inductive ConnectionStep (closed closed' : Bool) (c : Connection) : Connection → Prop where
  | stays (same : closed' = closed) : ConnectionStep closed closed' c c
  | command {c' : Connection} (same : closed' = closed) (line : CppString)
      (step : c.command line = some c') : ConnectionStep closed closed' c c'
  | arrive {c' : Connection} (same : closed' = closed) (step : c.arrive = some c') :
      ConnectionStep closed closed' c c'
  | receive {c' : Connection} (same : closed' = closed) (step : c.receive = some c') :
      ConnectionStep closed closed' c c'
  | post (later : closed = true → closed' = true) (requests : List (Nat × CppString))
      (part : requests ⊆ c.requests) (frames : List Frame) (framed : Framed closed' frames) :
      ConnectionStep closed closed' c (({ c with requests } : Connection).post frames)

section Steps

variable {closed closed' : Bool} {c c' : Connection}

theorem Connection.command_cases {line : CppString} (step : c.command line = some c') :
    c.phase = .idle ∧ c.arrived = [] ∧
      (clientCommand c.name line = .ok .stay ∧ c' = c ∨
        clientCommand c.name line = .ok .request ∧ c' = c.issue line (.awaiting c.issued) ∨
          clientCommand c.name line = .ok .exit ∧ c' = c.issue line .exited) := by
  rw [command] at step
  split_ifs at step with ready
  refine ⟨ready.1, ready.2, ?_⟩
  rcases asked : clientCommand c.name line with error | action
  · rw [asked] at step
    cases step
  rw [asked] at step
  cases action with
  | stay => exact .inl ⟨rfl, (Option.some.inj step).symm⟩
  | request => exact .inr (.inl ⟨rfl, (Option.some.inj step).symm⟩)
  | exit => exact .inr (.inr ⟨rfl, (Option.some.inj step).symm⟩)

theorem Connection.arrive_cases (step : c.arrive = some c') :
    ∃ arrived inFlight, c' = { c with arrived, inFlight } ∧ c'.queue = c.queue := by
  rw [arrive] at step
  cases inFlight : c.inFlight with
  | nil =>
      rw [inFlight] at step
      cases step
  | cons frame rest =>
      rw [inFlight] at step
      cases step
      exact ⟨_, _, rfl, by simp [queue, inFlight]⟩

/-- A client reads the first frame of its queue. -/
theorem Connection.receive_cases (step : c.receive = some c') :
    ∃ frame rest, c.arrived = frame :: rest ∧
      ((c.phase = .idle ∧ isServerExit frame.text = true ∧
          c' = { c with arrived := rest, phase := .exited }) ∨
        (c.phase = .idle ∧ isServerExit frame.text = false ∧ isMessageFrom frame.text = true ∧
          c' = { c with arrived := rest, phase := .awaitingText }) ∨
        (c.phase = .idle ∧ isServerExit frame.text = false ∧ isMessageFrom frame.text = false ∧
          c' = { c with arrived := rest }) ∨
        (∃ request, c.phase = .awaiting request ∧ c' = { c with
          arrived := rest, phase := .idle, responses := c.responses ++ [(request, frame)] }) ∨
        (c.phase = .awaitingText ∧ c' = { c with
          arrived := rest, phase := .idle, printed := c.printed ++ [frame.text] })) := by
  rw [receive] at step
  cases arrived : c.arrived with
  | nil =>
      rw [arrived] at step
      cases step
  | cons frame rest =>
      refine ⟨frame, rest, rfl, ?_⟩
      rw [arrived] at step
      cases phase : c.phase with
      | idle =>
          simp only [phase] at step
          split_ifs at step with isExit isMarker
          · exact .inl ⟨rfl, isExit, (Option.some.inj step).symm⟩
          · exact .inr (.inl ⟨rfl, Bool.eq_false_iff.mpr isExit, isMarker,
              (Option.some.inj step).symm⟩)
          · exact .inr (.inr (.inl ⟨rfl, Bool.eq_false_iff.mpr isExit,
              Bool.eq_false_iff.mpr isMarker, (Option.some.inj step).symm⟩))
      | awaiting request =>
          simp only [phase] at step
          exact .inr (.inr (.inr (.inl ⟨request, rfl, (Option.some.inj step).symm⟩)))
      | awaitingText =>
          simp only [phase] at step
          exact .inr (.inr (.inr (.inr ⟨rfl, (Option.some.inj step).symm⟩)))
      | exited =>
          simp only [phase] at step
          cases step

/-- Whatever the first frame was, whole frames are behind it, or the text of a
message whose marker it was. -/
theorem Connection.Faithful.rest {frame : Frame} {rest : List Frame}
    (faithful : c.Faithful closed) (front : c.queue = frame :: rest) :
    Framed closed rest ∨ BehindMarker closed rest := by
  rcases faithful.either with framed | behind
  · rw [front] at framed
    cases framed with
    | response plain more => exact .inl more
    | message plain more => exact .inr (.text plain more)
    | exitNotice isClosed more => exact .inl more
  · rw [front] at behind
    cases behind with
    | text plain more => exact .inl more

/-- At `select`, only a marker makes the client read a text. -/
theorem Connection.Faithful.marker {frame : Frame} {rest : List Frame}
    (faithful : c.Faithful closed) (front : c.queue = frame :: rest)
    (isMarker : isMessageFrom frame.text = true) : BehindMarker closed rest := by
  have text : frame.text = sendQue := of_decide_eq_true isMarker
  rcases faithful.either with framed | behind
  · rw [front] at framed
    cases framed with
    | response plain more => exact absurd text plain.2
    | message plain more => exact .text plain more
    | exitNotice isClosed more => exact absurd text (by decide)
  · rw [front] at behind
    cases behind with
    | text plain more => exact absurd text plain.2

/-- Only an exit notice looks like one. -/
theorem Connection.Faithful.exit {frame : Frame} {rest : List Frame}
    (faithful : c.Faithful closed) (front : c.queue = frame :: rest)
    (isExit : isServerExit frame.text = true) : closed = true := by
  have text : frame.text = exitSignal := of_decide_eq_true isExit
  rcases faithful.either with framed | behind
  · rw [front] at framed
    cases framed with
    | response plain more => exact absurd text plain.1
    | message plain more => exact absurd text (by decide)
    | exitNotice isClosed more => exact isClosed
  · rw [front] at behind
    cases behind with
    | text plain more => exact absurd text plain.1

/-- Reading a frame that is not printed. -/
theorem Connection.Faithful.skip {frame : Frame} {rest : List Frame} (faithful : c.Faithful closed)
    (front : c.queue = frame :: rest) : (c.printed ++ chatTexts rest).Sublist c.forwarded := by
  refine List.Sublist.trans ?_ faithful.inOrder
  rw [front, chatTexts, chatTexts]
  exact (((List.sublist_cons_self frame rest).filter _).map _).append_left c.printed

theorem Connection.Faithful.receive (faithful : c.Faithful closed) (step : c.receive = some c') :
    c'.Faithful closed := by
  obtain ⟨frame, rest, arrived, outcome⟩ := receive_cases step
  have front := c.queue_of_arrived arrived
  rcases outcome with ⟨-, -, rfl⟩ | ⟨-, -, isMarker, rfl⟩ | ⟨idle, -, -, rfl⟩ |
    ⟨request, -, rfl⟩ | ⟨phase, rfl⟩
  · exact ⟨fun _ => faithful.rest front, nofun, faithful.skip front⟩
  · exact ⟨fun notBehind => absurd rfl notBehind, fun _ => faithful.marker front isMarker,
      faithful.skip front⟩
  · refine ⟨fun _ => faithful.rest front, fun behind => ?_, faithful.skip front⟩
    cases idle.symm.trans behind
  · exact ⟨fun _ => faithful.rest front, nofun, faithful.skip front⟩
  · have behind := faithful.behind phase
    have inOrder := faithful.inOrder
    rw [front] at behind inOrder
    generalize inQueue : rest ++ c.inFlight = remaining at behind inOrder
    cases behind with
    | text plain more =>
        refine ⟨fun _ => .inl ?_, nofun, ?_⟩
        · rw [queue, inQueue]
          exact more
        · rw [queue, inQueue, List.append_assoc]
          exact inOrder

theorem ConnectionStep.name (step : ConnectionStep closed closed' c c') : c'.name = c.name := by
  cases step with
  | stays => rfl
  | command same line step =>
      rcases (Connection.command_cases step).2.2 with ⟨-, rfl⟩ | ⟨-, rfl⟩ | ⟨-, rfl⟩ <;> rfl
  | arrive same step =>
      obtain ⟨_, _, rfl, -⟩ := Connection.arrive_cases step
      rfl
  | receive same step =>
      obtain ⟨_, _, -, ⟨-, -, rfl⟩ | ⟨-, -, -, rfl⟩ | ⟨-, -, -, rfl⟩ | ⟨_, -, rfl⟩ | ⟨-, rfl⟩⟩ :=
        Connection.receive_cases step <;> rfl
  | post => rfl

theorem ConnectionStep.faithful (step : ConnectionStep closed closed' c c')
    (faithful : c.Faithful closed) : c'.Faithful closed' := by
  cases step with
  | stays same => exact same ▸ faithful
  | command same line step =>
      subst same
      obtain ⟨idle, -, ⟨-, rfl⟩ | ⟨-, rfl⟩ | ⟨-, rfl⟩⟩ := Connection.command_cases step
      · exact faithful
      · exact ⟨fun _ => faithful.either, nofun, faithful.inOrder⟩
      · exact ⟨fun _ => faithful.either, nofun, faithful.inOrder⟩
  | arrive same step =>
      subst same
      obtain ⟨arrived, inFlight, rfl, sameQueue⟩ := Connection.arrive_cases step
      exact ⟨sameQueue ▸ faithful.whole, sameQueue ▸ faithful.behind, sameQueue ▸ faithful.inOrder⟩
  | receive same step =>
      subst same
      exact faithful.receive step
  | post later requests part frames framed =>
      have grown : (({ c with requests } : Connection).post frames).queue = c.queue ++ frames :=
        Connection.queue_post _ _
      refine ⟨fun notBehind => ?_, fun behind => ?_, ?_⟩
      · rw [grown]
        exact (faithful.whole notBehind).imp (fun whole => (whole.mono later).append framed)
          fun behind => (behind.mono later).append framed
      · rw [grown]
        exact ((faithful.behind behind).mono later).append framed
      · rw [grown, chatTexts_append, ← List.append_assoc]
        exact faithful.inOrder.append_right (chatTexts frames)

end Steps

/-! ## What the server writes -/

/-- The frames of some chat messages to one client. -/
def messageFrames (texts : List CppString) : List Frame :=
  texts.flatMap fun text => [⟨sendQue, .marker⟩, ⟨text, .chat⟩]

theorem framed_messageFrames {closed : Bool} {texts : List CppString}
    (plain : ∀ text ∈ texts, Plain text) : Framed closed (messageFrames texts) := by
  induction texts with
  | nil => exact .nil
  | cons text texts ih =>
      rw [List.forall_mem_cons] at plain
      exact .message plain.1 (ih plain.2)

theorem chatTexts_messageFrames (texts : List CppString) :
    chatTexts (messageFrames texts) = texts := by
  induction texts with
  | nil => rfl
  | cons text texts ih => exact congrArg (text :: ·) ih

/-- Exit notices only. -/
theorem framed_exitNotices {frames : List Frame}
    (notices : ∀ frame ∈ frames, frame = ⟨exitSignal, .exitNotice⟩) :
    Framed true frames ∧ chatTexts frames = [] := by
  induction frames with
  | nil => exact ⟨.nil, rfl⟩
  | cons frame frames ih =>
      rw [List.forall_mem_cons] at notices
      obtain ⟨rfl, later⟩ := notices
      exact ⟨.exitNotice rfl (ih later).1, (ih later).2⟩

/-- The calls that write some messages. -/
def chatCalls (server : WhatsappServer) (entries : List ChatEntry) : List Attempt :=
  entries.flatMap fun entry => entry.recipients.flatMap (chatAttempts server entry.text)

theorem mem_chatEntries {server : WhatsappServer} (registered : Registered server)
    {client line : CppString} {entry : ChatEntry}
    (member : entry ∈ chatEntries server client line) :
    entry.recipients.Nodup ∧ (∀ name ∈ entry.recipients, name ∈ server.clients.keys) ∧
      Plain entry.text := by
  rw [chatEntries] at member
  split at member
  · split_ifs at member
    · rw [List.mem_singleton.mp member]
      exact ⟨registered.recipients_nodup client _,
        fun _ inRecipients => registered.recipients_connected inRecipients,
        plain_chatText (client, 0) _⟩
    · exact absurd member List.not_mem_nil
  · exact absurd member List.not_mem_nil

theorem plain_of_mem_textsFor {server : WhatsappServer} (registered : Registered server)
    {client line name text : CppString}
    (member : text ∈ textsFor name (chatEntries server client line)) : Plain text := by
  obtain ⟨entry, inEntries, rfl⟩ := List.mem_map.mp member
  exact (mem_chatEntries registered (List.mem_of_mem_filter inEntries)).2.2

theorem send_response (server : WhatsappServer) (client : Client) (sendTo message : CppString)
    (wire : Wire) : ∃ attempts failed delivered,
      (send server client sendTo message wire).2.attempts =
        attempts ++ [⟨client.2, sendOutcome failed, .response, delivered⟩] := by
  rw [send]
  dsimp only
  split_ifs
  · exact ⟨_, _, _, rfl⟩
  · cases server.groups.find? sendTo with
    | none => exact ⟨_, true, _, rfl⟩
    | some members =>
        dsimp only
        split_ifs
        · exact ⟨_, _, _, rfl⟩
        · exact ⟨_, true, _, rfl⟩

/-- **Handling a request line.** The server writes the chat message that the line
asks for, if any, and one response. -/
theorem handleClientRequest_written {server after : WhatsappServer} {wire : Wire}
    (registered : Registered server)
    (valid : ∀ name ∈ server.clients.keys, validateName name = true) {name line : CppString}
    {fd : Int} (asks : clientCommand name line = .ok .request)
    (handled : handleClientRequest server (name, fd) (some line) ⟨[], []⟩ = .ok (after, wire)) :
    ∃ text, Plain text ∧ wire.attempts =
      chatCalls server (chatEntries server name line) ++ [⟨fd, text, .response, true⟩] := by
  rw [clientCommand] at asks
  rcases parsed : parseCommand line with error | parsed'
  · rw [parsed] at asks
    cases error <;> cases asks
  rw [parsed] at asks
  rw [handle_parsed parsed, Except.ok.injEq] at handled
  obtain ⟨commandT, target, message, clients⟩ := parsed'
  rw [chatEntries, parsed]
  cases commandT with
  | createGroup =>
      obtain ⟨text, written⟩ := createGroup_attempts server (name, fd) target clients
      have plain : ∀ attempt ∈ (createGroup server (name, fd) target clients ⟨[], []⟩).2.attempts,
          Plain attempt.frame := createGroup_frames (by decide) (by decide) (by decide)
      rw [written] at plain
      rw [show createGroup server (name, fd) target clients ⟨[], []⟩ = (after, wire) from handled]
        at written
      exact ⟨text, plain _ List.mem_cons_self, written⟩
  | send =>
      obtain ⟨text, written⟩ := send_attempts registered (name, fd) target message
      obtain ⟨earlier, failed, delivered, last⟩ :=
        send_response server (name, fd) target message ⟨[], []⟩
      have isOutcome : text = sendOutcome failed := by
        have same := (List.append_inj' (written.symm.trans last) rfl).2
        exact congrArg Attempt.frame (List.cons.inj same).1
      rw [show send server (name, fd) target message ⟨[], []⟩ = (after, wire) from handled]
        at written
      refine ⟨text, ?_, ?_⟩
      · rw [isOutcome]
        cases failed <;> decide
      · rw [written, chatCalls]
        dsimp only
        rw [if_pos rfl, List.flatMap_singleton]
        rfl
  | who =>
      have sorted : ∀ other ∈ sortNames server.clientsList, validateName other = true :=
        fun other member => valid other
          (registered.mem_clientsList.mp ((sortNames_perm _).mem_iff.mp member))
      have written : (who server (name, fd) ⟨[], []⟩).2.attempts =
          [⟨fd, whoList (sortNames server.clientsList), .response, true⟩] := rfl
      rw [show who server (name, fd) ⟨[], []⟩ = (after, wire) from handled] at written
      exact ⟨_, plain_whoList sorted, written⟩
  | exit => cases asks
  | invalid => cases asks

/-- An exit line asks for no message. -/
theorem chatEntries_exit {server : WhatsappServer} {name line : CppString}
    (leaves : clientCommand name line = .ok .exit) : chatEntries server name line = [] := by
  rw [clientCommand] at leaves
  rw [chatEntries]
  rcases parsed : parseCommand line with error | ⟨commandT, target, message, clients⟩
  · rfl
  rw [parsed] at leaves
  cases commandT with
  | send =>
      dsimp only at leaves
      split_ifs at leaves <;> cases leaves
  | _ => rfl

/-! ## Sessions -/

/-- The lines that the client at a descriptor sends in a step. -/
def typed (fd : Int) (s : Session) (event : SessionEvent) (_ : Session) : List CppString :=
  match event with
  | .command fd' line =>
      match s.connection fd with
      | some c => if fd' = fd ∧ clientCommand c.name line ≠ .ok .stay then [line] else []
      | none => []
  | _ => []

/-- The lines of the client at a descriptor that the server handles in a step. -/
def handled (fd : Int) (s : Session) (event : SessionEvent) (_ : Session) : List CppString :=
  match event with
  | .serve fd' =>
      match s.connection fd with
      | some c => if fd' = fd then (c.requests.take 1).map Prod.snd else []
      | none => []
  | _ => []

/-- What holds of a connection in every session. -/
structure Connection.Orderly (s : Session) (fd : Int) (c : Connection) : Prop where
  faithful : c.Faithful (!s.running)
  asked : ∀ request ∈ c.requests,
    clientCommand c.name request.2 = .ok .request ∨ clientCommand c.name request.2 = .ok .exit
  leaving : s.running = true → s.server.clients.find? c.name = some fd → c.phase = .exited →
    ∃ request ∈ c.requests, clientCommand c.name request.2 = .ok .exit
  ending : ∀ request ∈ c.requests, clientCommand c.name request.2 = .ok .exit → c.phase = .exited
  member : c.phase ≠ .exited → s.server.clients.find? c.name = some fd
  waiting : ∀ request, c.phase = .awaiting request → c.requests ≠ [] ∨ c.queue ≠ []

/-- What holds in every session. -/
structure Linked (s : Session) : Prop where
  registered : Registered s.server
  valid : ∀ name ∈ s.server.clients.keys, validateName name = true
  connected : ∀ name fd, s.server.clients.find? name = some fd →
    ∃ c, s.connection fd = some c ∧ c.name = name
  orderly : ∀ fd c, s.connection fd = some c → c.Orderly s fd

/-- What a step does to a connection that was there before. -/
structure Moved (s t : Session) (event : SessionEvent) (fd : Int) (c c' : Connection) : Prop where
  step : ConnectionStep (!s.running) (!t.running) c c'
  registered : t.server.clients.find? c.name = some fd → s.server.clients.find? c.name = some fd
  forwarded : c'.forwarded = c.forwarded ++
    if s.server.clients.find? c.name = some fd then textsFor c.name (forwards s event t) else []
  requests : c.requests.map Prod.snd ++ typed fd s event t =
    handled fd s event t ++ c'.requests.map Prod.snd
  left : ∀ request ∈ c.requests, request ∉ c'.requests →
    clientCommand c.name request.2 = .ok .exit → t.server.clients.find? c.name ≠ some fd
  stays : s.server.clients.find? c.name = some fd → t.server.clients.find? c.name = some fd ∨
    ∃ request ∈ c.requests, clientCommand c.name request.2 = .ok .exit
  answered : c'.requests.length < c.requests.length →
    (∀ request ∈ c.requests, clientCommand c.name request.2 = .ok .request) → c'.queue ≠ []

section Sessions

variable {s t : Session} {event : SessionEvent} {fd : Int} {c c' : Connection}

theorem Linked.name_of_registered (linked : Linked s) (found : s.connection fd = some c)
    {name : CppString} (registered : s.server.clients.find? name = some fd) : c.name = name := by
  obtain ⟨other, found', isName⟩ := linked.connected name fd registered
  rw [found, Option.some.injEq] at found'
  rw [found', isName]

/-- What the server writes to a connection for one message. -/
theorem Linked.framesTo_entry (linked : Linked s) (found : s.connection fd = some c)
    (request : Nat) {entry : ChatEntry} (nodup : entry.recipients.Nodup)
    (connected : ∀ name ∈ entry.recipients, name ∈ s.server.clients.keys) :
    framesTo fd request (entry.recipients.flatMap (chatAttempts s.server entry.text)) =
      if s.server.clients.find? c.name = some fd then messageFrames (textsFor c.name [entry])
      else [] := by
  have addressed := addressed_chatAttempts s.server entry.text
  by_cases registered : s.server.clients.find? c.name = some fd
  · rw [if_pos registered]
    by_cases member : c.name ∈ entry.recipients
    · have apart : ∀ first second, s.server.clients.find? first = some fd →
          s.server.clients.find? second = some fd → first = second := fun first second one two =>
        (linked.name_of_registered found one).symm.trans (linked.name_of_registered found two)
      rw [addressed.framesTo_eq request nodup connected apart member registered,
        framesTo_chatAttempts registered]
      simp [textsFor, messageFrames, member]
    · rw [addressed.framesTo_eq_nil request connected fun name inRecipients isFd =>
        member (linked.name_of_registered found isFd ▸ inRecipients)]
      simp [textsFor, messageFrames, member]
  · rw [if_neg registered]
    refine addressed.framesTo_eq_nil request connected fun name _ isFd => registered ?_
    rwa [linked.name_of_registered found isFd]

theorem Linked.framesTo_chatCalls (linked : Linked s) (found : s.connection fd = some c)
    (request : Nat) {entries : List ChatEntry}
    (sound : ∀ entry ∈ entries, entry.recipients.Nodup ∧
      (∀ name ∈ entry.recipients, name ∈ s.server.clients.keys) ∧ Plain entry.text) :
    framesTo fd request (chatCalls s.server entries) =
      if s.server.clients.find? c.name = some fd then messageFrames (textsFor c.name entries)
      else [] := by
  induction entries with
  | nil => simp [chatCalls, framesTo, textsFor, messageFrames]
  | cons entry entries ih =>
      rw [List.forall_mem_cons] at sound
      obtain ⟨⟨nodup, connected, -⟩, later⟩ := sound
      rw [chatCalls, List.flatMap_cons, framesTo_append,
        linked.framesTo_entry found request nodup connected,
        show framesTo fd request (entries.flatMap fun entry =>
          entry.recipients.flatMap (chatAttempts s.server entry.text)) = _ from ih later]
      split_ifs
      · rw [← List.singleton_append (l := entries), textsFor_append, messageFrames, messageFrames,
          messageFrames, List.flatMap_append]
      · rfl

/-- What the server writes to a connection when it handles a request line: the
chat message, if it goes there, and the response, if the line came from there. -/
theorem Linked.framesTo_request (linked : Linked s) (found : s.connection fd = some c)
    (request : Nat) {name line : CppString} {fd₀ : Int} {server : WhatsappServer} {wire : Wire}
    (asks : clientCommand name line = .ok .request)
    (handled : handleClientRequest s.server (name, fd₀) (some line) ⟨[], []⟩ =
      .ok (server, wire)) :
    ∃ text, Plain text ∧ framesTo fd request wire.attempts =
      (if s.server.clients.find? c.name = some fd then
        messageFrames (textsFor c.name (chatEntries s.server name line)) else []) ++
        if fd₀ = fd then [⟨text, .response request⟩] else [] := by
  obtain ⟨text, plain, written⟩ :=
    handleClientRequest_written linked.registered linked.valid asks handled
  refine ⟨text, plain, ?_⟩
  rw [written, framesTo_append, linked.framesTo_chatCalls found request fun entry member =>
    mem_chatEntries linked.registered member]
  by_cases same : fd₀ = fd <;> simp [framesTo, same, Attempt.toFrame]

/-- A step of the client process at a descriptor. -/
theorem update_cases {action : Connection → Option Connection}
    (step : (s.connection fd).bind (fun c => (action c).map (s.update fd)) = some t) :
    ∃ c c', s.connection fd = some c ∧ action c = some c' ∧ t = s.update fd c' := by
  obtain ⟨c, isConnection, rest⟩ := Option.bind_eq_some_iff.mp step
  obtain ⟨c', acted, rfl⟩ := Option.map_eq_some_iff.mp rest
  exact ⟨c, c', isConnection, acted, rfl⟩

/-- What it does to the connections. -/
theorem moved_update {action : Connection → Option Connection}
    (step : (s.connection fd).bind (fun c => (action c).map (s.update fd)) = some t)
    {fd' : Int} (found : t.connection fd' = some c') :
    t.running = s.running ∧ t.server = s.server ∧
      ((fd' = fd ∧ ∃ c, s.connection fd = some c ∧ action c = some c') ∨
        fd' ≠ fd ∧ s.connection fd' = some c') := by
  obtain ⟨c, after, isConnection, acted, rfl⟩ := update_cases step
  refine ⟨rfl, rfl, ?_⟩
  by_cases same : fd' = fd
  · subst same
    rw [Session.update_self, Option.some.injEq] at found
    exact .inl ⟨rfl, c, isConnection, found ▸ acted⟩
  · rw [Session.update_of_ne _ _ same] at found
    exact .inr ⟨same, found⟩

/-- A connection that a step leaves alone. -/
theorem Moved.refl (running : t.running = s.running)
    (registered : t.server.clients.find? c.name = some fd ↔
      s.server.clients.find? c.name = some fd)
    (noMessage : forwards s event t = []) (noLine : typed fd s event t = [])
    (noRequest : handled fd s event t = []) : Moved s t event fd c c where
  step := .stays (by rw [running])
  registered := registered.mp
  forwarded := by
    rw [noMessage]
    simp [textsFor]
  requests := by rw [noLine, noRequest, List.append_nil, List.nil_append]
  left := fun request member gone => absurd member gone
  stays := fun before => .inl (registered.mpr before)
  answered := fun fewer => absurd fewer (lt_irrefl _)

/-- A step of the client alone: what it sends joins the requests that wait. -/
theorem Moved.client (server : t.server = s.server)
    (step : ConnectionStep (!s.running) (!t.running) c c') (noMessage : forwards s event t = [])
    (noRequest : handled fd s event t = []) (forwarded : c'.forwarded = c.forwarded)
    (sent : List (Nat × CppString)) (requests : c'.requests = c.requests ++ sent)
    (lines : typed fd s event t = sent.map Prod.snd) : Moved s t event fd c c' where
  step := step
  registered := fun registered => server ▸ registered
  forwarded := by
    rw [forwarded, noMessage]
    simp [textsFor]
  requests := by rw [lines, noRequest, requests, List.map_append, List.nil_append]
  left := by
    intro request member gone
    rw [requests] at gone
    exact absurd (List.mem_append_left sent member) gone
  stays := fun registered => .inl (server ▸ registered)
  answered := by
    intro fewer
    rw [requests, List.length_append] at fewer
    omega

/-- What a client has sent, it asked for or left with. -/
theorem Connection.Orderly.asked_later {closed closed' : Bool} (orderly : c.Orderly s fd)
    (step : ConnectionStep closed closed' c c') :
    ∀ request ∈ c'.requests,
      clientCommand c.name request.2 = .ok .request ∨
        clientCommand c.name request.2 = .ok .exit := by
  intro request member
  cases step with
  | stays same => exact orderly.asked request member
  | command same line step =>
      obtain ⟨-, -, ⟨-, rfl⟩ | ⟨asks, rfl⟩ | ⟨leaves, rfl⟩⟩ := command_cases step
      · exact orderly.asked request member
      · rcases List.mem_append.mp member with old | new
        · exact orderly.asked request old
        · rw [List.mem_singleton.mp new]
          exact .inl asks
      · rcases List.mem_append.mp member with old | new
        · exact orderly.asked request old
        · rw [List.mem_singleton.mp new]
          exact .inr leaves
  | arrive same step =>
      obtain ⟨_, _, rfl, -⟩ := arrive_cases step
      exact orderly.asked request member
  | receive same step =>
      obtain ⟨_, _, -, ⟨-, -, rfl⟩ | ⟨-, -, -, rfl⟩ | ⟨-, -, -, rfl⟩ | ⟨_, -, rfl⟩ | ⟨-, rfl⟩⟩ :=
        receive_cases step <;> exact orderly.asked request member
  | post later requests part frames framed => exact orderly.asked request (part member)

/-- A process that has ended had its own exit on the way, unless an exit notice
came. -/
theorem Connection.Orderly.leaving_later (orderly : c.Orderly s fd)
    (moved : Moved s t event fd c c') (running : t.running = true)
    (registered : t.server.clients.find? c.name = some fd) (exited : c'.phase = .exited) :
    ∃ request ∈ c'.requests, clientCommand c.name request.2 = .ok .exit := by
  have leaving : s.running = true → c.phase = .exited →
      ∃ request ∈ c.requests, clientCommand c.name request.2 = .ok .exit :=
    fun before => orderly.leaving before (moved.registered registered)
  have isOpen : (!t.running) = false := by rw [running]; rfl
  have left := moved.left
  cases moved.step with
  | stays same => exact leaving (by simpa [running] using same) exited
  | command same line step =>
      obtain ⟨idle, -, ⟨-, rfl⟩ | ⟨-, rfl⟩ | ⟨leaves, rfl⟩⟩ := command_cases step
      · cases idle.symm.trans exited
      · cases exited
      · exact ⟨(c.issued, line), List.mem_append_right _ List.mem_cons_self, leaves⟩
  | arrive same step =>
      obtain ⟨_, _, rfl, -⟩ := arrive_cases step
      exact leaving (by simpa [running] using same) exited
  | receive same step =>
      obtain ⟨frame, rest, arrived, ⟨-, isExit, rfl⟩ | ⟨-, -, -, rfl⟩ | ⟨idle, -, -, rfl⟩ |
        ⟨_, -, rfl⟩ | ⟨-, rfl⟩⟩ := receive_cases step
      · -- The notice that it read is written only when the server has shut down.
        have isClosed := orderly.faithful.exit (c.queue_of_arrived arrived) isExit
        cases isOpen.symm.trans (same.trans isClosed)
      · cases exited
      · cases idle.symm.trans exited
      · cases exited
      · cases exited
  | post later requests part frames framed =>
      have before : s.running = true := by
        by_contra stopped
        have isClosed := later (by rw [Bool.not_eq_true _ |>.mp stopped]; rfl)
        cases isOpen.symm.trans isClosed
      obtain ⟨request, member, leaves⟩ := leaving before exited
      refine ⟨request, ?_, leaves⟩
      by_contra gone
      exact left request member gone leaves registered

/-- A client that has sent its exit has ended. -/
theorem Connection.Orderly.ending_later {closed closed' : Bool} (orderly : c.Orderly s fd)
    (step : ConnectionStep closed closed' c c') :
    ∀ request ∈ c'.requests, clientCommand c.name request.2 = .ok .exit →
      c'.phase = .exited := by
  intro request member leaves
  cases step with
  | stays same => exact orderly.ending request member leaves
  | command same line step =>
      obtain ⟨idle, -, ⟨-, rfl⟩ | ⟨asks, rfl⟩ | ⟨-, rfl⟩⟩ := command_cases step
      · exact orderly.ending request member leaves
      · rcases List.mem_append.mp member with old | new
        · cases idle.symm.trans (orderly.ending request old leaves)
        · rw [List.mem_singleton.mp new] at leaves
          cases asks.symm.trans leaves
      · rfl
  | arrive same step =>
      obtain ⟨_, _, rfl, -⟩ := arrive_cases step
      exact orderly.ending request member leaves
  | receive same step =>
      obtain ⟨_, _, -, ⟨phase, -, rfl⟩ | ⟨phase, -, -, rfl⟩ | ⟨phase, -, -, rfl⟩ |
        ⟨_, phase, rfl⟩ | ⟨phase, rfl⟩⟩ := receive_cases step
      all_goals cases phase.symm.trans (orderly.ending request member leaves)
  | post later requests part frames framed => exact orderly.ending request (part member) leaves

/-- A client that has not ended waits for responses only. -/
theorem Connection.Orderly.asks (orderly : c.Orderly s fd) (running : c.phase ≠ .exited) :
    ∀ request ∈ c.requests, clientCommand c.name request.2 = .ok .request :=
  fun request member => (orderly.asked request member).resolve_right fun leaves =>
    running (orderly.ending request member leaves)

/-- A client that waits for a response has a frame to come, or its request has. -/
theorem Connection.Orderly.waiting_later (orderly : c.Orderly s fd)
    (moved : Moved s t event fd c c') (number : Nat) (awaits : c'.phase = .awaiting number) :
    c'.requests ≠ [] ∨ c'.queue ≠ [] := by
  have answered := moved.answered
  cases moved.step with
  | stays same => exact orderly.waiting number awaits
  | command same line step =>
      obtain ⟨idle, -, ⟨-, rfl⟩ | ⟨-, rfl⟩ | ⟨-, rfl⟩⟩ := command_cases step
      · cases idle.symm.trans awaits
      · exact .inl (by simp [issue])
      · cases awaits
  | arrive same step =>
      obtain ⟨_, _, rfl, sameQueue⟩ := arrive_cases step
      rw [sameQueue]
      exact orderly.waiting number awaits
  | receive same step =>
      obtain ⟨_, _, -, ⟨-, -, rfl⟩ | ⟨-, -, -, rfl⟩ | ⟨idle, -, -, rfl⟩ | ⟨_, -, rfl⟩ |
        ⟨-, rfl⟩⟩ := receive_cases step
      · cases awaits
      · cases awaits
      · cases idle.symm.trans awaits
      · cases awaits
      · cases awaits
  | post later requests part frames framed =>
      rcases orderly.waiting number awaits with pending | some
      · cases requests with
        | cons request rest => exact .inl (List.cons_ne_nil _ _)
        | nil =>
            refine .inr (answered (List.length_pos_iff.mpr pending) ?_)
            exact orderly.asks (fun exited => by cases awaits.symm.trans exited)
      · rw [queue_post]
        exact .inr fun none => some (List.append_eq_nil_iff.mp none).1

/-- A process that has ended stays so. -/
theorem ConnectionStep.exited {closed closed' : Bool} (step : ConnectionStep closed closed' c c')
    (exited : c.phase = .exited) : c'.phase = .exited := by
  cases step with
  | stays same => exact exited
  | command same line step => cases exited.symm.trans (Connection.command_cases step).1
  | arrive same step =>
      obtain ⟨_, _, rfl, -⟩ := Connection.arrive_cases step
      exact exited
  | receive same step =>
      obtain ⟨_, _, -, ⟨phase, -, rfl⟩ | ⟨phase, -, -, rfl⟩ | ⟨phase, -, -, rfl⟩ |
        ⟨_, phase, rfl⟩ | ⟨phase, rfl⟩⟩ := Connection.receive_cases step
      all_goals cases exited.symm.trans phase
  | post later requests part frames framed => exact exited

/-- A client is registered until its exit has been handled. -/
theorem Connection.Orderly.member_later (orderly : c.Orderly s fd)
    (moved : Moved s t event fd c c') (running : c'.phase ≠ .exited) :
    t.server.clients.find? c.name = some fd := by
  have before : c.phase ≠ .exited := fun exited => running (moved.step.exited exited)
  rcases moved.stays (orderly.member before) with registered | ⟨request, member, leaves⟩
  · exact registered
  · exact absurd (orderly.ending request member leaves) before

theorem Connection.Orderly.later (orderly : c.Orderly s fd) (moved : Moved s t event fd c c') :
    c'.Orderly t fd := by
  have sameName := moved.step.name
  refine ⟨moved.step.faithful orderly.faithful, ?_, ?_, ?_, ?_, orderly.waiting_later moved⟩
  · rw [sameName]
    exact orderly.asked_later moved.step
  · rw [sameName]
    exact orderly.leaving_later moved
  · rw [sameName]
    exact orderly.ending_later moved.step
  · rw [sameName]
    exact orderly.member_later moved

/-! ## Steps of a session -/

/-- A client is registered, or turned away because its name is taken. -/
theorem join_cases {name : CppString} (step : s.next (.join fd name) = some t) :
    validateName name = true ∧ (∀ other, s.server.clients.find? other ≠ some fd) ∧
      t.running = s.running ∧
      t.server = (connectNewClient s.server fd (some name) ⟨[], []⟩).1 ∧
      (t.server.clients = s.server.clients ∧ t.connection = s.connection ∨
        s.server.clients.find? name = none ∧
          t.server.clients = s.server.clients.insert name fd ∧
          t.connection = Function.update s.connection fd (some { name })) := by
  rw [Session.next] at step
  dsimp only at step
  split_ifs at step with ready taken
  · obtain ⟨-, valid, fresh⟩ := ready
    cases step
    refine ⟨valid, fun other found => fresh _ (SortedMap.find?_eq_some.mp found) rfl, rfl, rfl,
      .inl ⟨?_, rfl⟩⟩
    dsimp only
    rw [connectNewClient]
    dsimp only
    rw [if_pos taken]
  · obtain ⟨-, valid, fresh⟩ := ready
    cases step
    refine ⟨valid, fun other found => fresh _ (SortedMap.find?_eq_some.mp found) rfl, rfl, rfl,
      .inr ⟨?_, ?_, rfl⟩⟩
    · obtain ⟨noClient, -⟩ := contains_or_eq_false taken
      rw [Option.eq_none_iff_forall_ne_some]
      exact fun fd' found => noClient (SortedMap.mem_keys.mpr ⟨fd', found⟩)
    · rw [Session.update_server, connectNewClient]
      dsimp only
      rw [if_neg taken]

theorem shutdown_cases (step : s.next .shutdown = some t) :
    t.server = s.server ∧ t.running = false ∧
      t.connection = postAll s.connection 0 (serverExit s.server ⟨[], []⟩).attempts := by
  rw [Session.next] at step
  split_ifs at step
  cases step
  exact ⟨rfl, rfl, rfl⟩

/-- A connection after the server has handled a request of one of them. -/
theorem served_connection {fd₀ : Int} {c₀ : Connection} {request : Nat} {line : CppString}
    {requests : List (Nat × CppString)} (found₀ : s.connection fd₀ = some c₀)
    (oldest : c₀.requests = (request, line) :: requests) {attempts : List Attempt}
    (found : postAll (s.update fd₀ { c₀ with requests }).connection request attempts fd = some c')
    (t : Session) :
    ∃ c rest, s.connection fd = some c ∧
      c' = ({ c with requests := rest } : Connection).post (framesTo fd request attempts) ∧
      rest ⊆ c.requests ∧
      c.requests.map Prod.snd = handled fd s (.serve fd₀) t ++ rest.map Prod.snd ∧
      (fd = fd₀ ∧ c = c₀ ∧ rest = requests ∨ rest = c.requests) := by
  obtain ⟨middle, isMiddle, rfl⟩ := Option.map_eq_some_iff.mp found
  by_cases same : fd = fd₀
  · subst same
    rw [Session.update_self, Option.some.injEq] at isMiddle
    refine ⟨c₀, requests, found₀, isMiddle ▸ rfl, ?_, ?_, .inl ⟨rfl, rfl, rfl⟩⟩
    · rw [oldest]
      exact List.subset_cons_self ..
    · simp [handled, found₀, oldest]
  · rw [Session.update_of_ne _ _ same] at isMiddle
    refine ⟨middle, middle.requests, isMiddle, rfl, List.Subset.refl _, ?_, .inr rfl⟩
    simp [handled, isMiddle, Ne.symm same]

theorem Linked.moved_serve (linked : Linked s) {fd₀ : Int}
    (step : s.next (.serve fd₀) = some t) (found : t.connection fd = some c') :
    ∃ c, s.connection fd = some c ∧ Moved s t (.serve fd₀) fd c c' := by
  obtain ⟨c₀, name, request, line, requests, server, wire, -, found₀, registered₀, oldest,
    served, isNext⟩ := serve_cases step
  obtain rfl := linked.name_of_registered found₀ registered₀
  have running : t.running = s.running := by rw [isNext]
  obtain rfl : t.server = server := by rw [isNext]
  rw [isNext] at found
  obtain ⟨c, rest, isConnection, rfl, part, lines, handled⟩ :=
    served_connection found₀ oldest found t
  have entries : forwards s (.serve fd₀) t = chatEntries s.server c₀.name line := by
    simp [forwards, found₀, oldest]
  refine ⟨c, isConnection, ?_⟩
  rcases (linked.orderly fd₀ c₀ found₀).asked (request, line) (by simp [oldest]) with asks | leaves
  · obtain ⟨sameClients, -⟩ := handleClientRequest_request linked.registered asks served
    obtain ⟨text, plain, frames⟩ := linked.framesTo_request isConnection request asks served
    have texts : ∀ text ∈ textsFor c.name (chatEntries s.server c₀.name line), Plain text :=
      fun text => plain_of_mem_textsFor linked.registered
    refine ⟨.post (by rw [running]; exact id) rest part _ ?_,
      fun registered => sameClients ▸ registered, ?_, ?_, ?_,
      fun registered => .inl (sameClients ▸ registered), ?_⟩
    · rw [frames]
      refine Framed.append ?_ ?_
      · split_ifs
        · exact framed_messageFrames texts
        · exact .nil
      · split_ifs
        · exact .response plain .nil
        · exact .nil
    · have response : chatTexts (if fd₀ = fd then [⟨text, .response request⟩] else []) = [] := by
        split_ifs <;> rfl
      have chat : chatTexts (framesTo fd request wire.attempts) =
          if s.server.clients.find? c.name = some fd then
            textsFor c.name (chatEntries s.server c₀.name line) else [] := by
        rw [frames, chatTexts_append, response, List.append_nil]
        split_ifs
        · exact chatTexts_messageFrames _
        · rfl
      rw [entries, ← chat]
      rfl
    · exact (List.append_nil _).trans lines
    · intro other member isGone leaves
      rcases handled with ⟨rfl, rfl, rfl⟩ | rfl
      · rw [oldest, List.mem_cons] at member
        rw [member.resolve_right isGone, asks] at leaves
        cases leaves
      · exact absurd member isGone
    · intro fewer _
      rcases handled with ⟨rfl, rfl, rfl⟩ | rfl
      · rw [Connection.queue_post, frames, if_pos rfl]
        simp
      · exact absurd fewer (lt_irrefl _)
  · rw [handleClientRequest_exit leaves, Except.ok.injEq, Prod.mk.injEq] at served
    obtain ⟨exited, rfl⟩ := served
    have clients : t.server.clients = s.server.clients.erase c₀.name := by
      rw [← exited]
      rfl
    have frames : framesTo fd request [] = [] := rfl
    refine ⟨.post (by rw [running]; exact id) rest part _ (frames ▸ .nil), fun registered => ?_,
      ?_, ?_, ?_, ?_, ?_⟩
    · rw [clients, SortedMap.find?_erase] at registered
      split_ifs at registered
      exact registered
    · rw [entries, chatEntries_exit leaves]
      simp [Connection.post, frames, chatTexts, textsFor]
    · exact (List.append_nil _).trans lines
    · intro other member isGone _
      rcases handled with ⟨rfl, rfl, rfl⟩ | rfl
      · rw [clients, SortedMap.find?_erase, if_pos rfl]
        exact (Option.some_ne_none fd).symm
      · exact absurd member isGone
    · intro registered
      by_cases same : c.name = c₀.name
      · rw [same, registered₀, Option.some.injEq] at registered
        subst registered
        rw [isConnection, Option.some.injEq] at found₀
        exact .inr ⟨(request, line), by simp [found₀, oldest], found₀ ▸ leaves⟩
      · rw [clients, SortedMap.find?_erase, if_neg same]
        exact .inl registered
    · intro fewer asks
      rcases handled with ⟨rfl, rfl, rfl⟩ | rfl
      · cases leaves.symm.trans (asks (request, line) (by simp [oldest]))
      · exact absurd fewer (lt_irrefl _)

/-- A connection after somebody has joined. -/
theorem moved_join {fd' : Int} {name : CppString} (step : s.next (.join fd' name) = some t)
    (found : t.connection fd = some c') :
    (fd = fd' ∧ c' = { name } ∧ t.server.clients.find? name = some fd) ∨
      s.connection fd = some c' ∧ Moved s t (.join fd' name) fd c' c' := by
  obtain ⟨-, -, running, -, ⟨clients, connection⟩ | ⟨free, clients, connection⟩⟩ := join_cases step
  · rw [connection] at found
    exact .inr ⟨found, .refl running (by rw [clients]) rfl rfl rfl⟩
  rw [connection] at found
  by_cases same : fd = fd'
  · subst same
    rw [Function.update_self, Option.some.injEq] at found
    refine .inl ⟨rfl, found.symm, ?_⟩
    rw [clients, SortedMap.find?_insert, if_pos rfl]
  · rw [Function.update_of_ne same] at found
    refine .inr ⟨found, .refl running ?_ rfl rfl rfl⟩
    rw [clients, SortedMap.find?_insert]
    split_ifs with isName
    · rw [isName, free]
      simp [Ne.symm same]
    · rfl

/-- The last frame of a connection is the exit notice. -/
theorem moved_shutdown (step : s.next .shutdown = some t) (found : t.connection fd = some c') :
    ∃ c, s.connection fd = some c ∧ Moved s t .shutdown fd c c' := by
  obtain ⟨server, stopped, connection⟩ := shutdown_cases step
  rw [connection] at found
  obtain ⟨c, isConnection, rfl⟩ := Option.map_eq_some_iff.mp found
  have notices : ∀ frame ∈ framesTo fd 0 (serverExit s.server ⟨[], []⟩).attempts,
      frame = ⟨exitSignal, .exitNotice⟩ := by
    intro frame member
    obtain ⟨attempt, inAttempts, rfl⟩ := List.mem_map.mp member
    have old := List.mem_of_mem_filter inAttempts
    rw [serverExit_attempts] at old
    obtain ⟨entry, -, rfl⟩ := List.mem_map.mp old
    rfl
  obtain ⟨framed, noText⟩ := framed_exitNotices notices
  refine ⟨c, isConnection, ?_, fun registered => server ▸ registered, ?_, ?_, ?_,
    fun registered => .inl (server ▸ registered), fun fewer => absurd fewer (lt_irrefl _)⟩
  · refine .post (fun _ => by rw [stopped]; rfl) c.requests (List.Subset.refl _) _ ?_
    rw [stopped]
    exact framed
  · simp [Connection.post, noText, forwards, textsFor]
  · exact List.append_nil _
  · exact fun request member gone => absurd member gone

/-- **A connection after a step** is a new one, or what the step made of the one
before. -/
theorem Linked.moved (linked : Linked s) (step : s.next event = some t)
    (found : t.connection fd = some c') :
    (event = .join fd c'.name ∧ c' = { name := c'.name } ∧
        t.server.clients.find? c'.name = some fd) ∨
      ∃ c, s.connection fd = some c ∧ Moved s t event fd c c' := by
  cases event with
  | join fd' name =>
      rcases moved_join step found with ⟨rfl, rfl, registered⟩ | ⟨isConnection, moved⟩
      · exact .inl ⟨rfl, rfl, registered⟩
      · exact .inr ⟨c', isConnection, moved⟩
  | command fd' line =>
      obtain ⟨running, server, ⟨rfl, c, isConnection, acted⟩ | ⟨other, isConnection⟩⟩ :=
        moved_update step found
      · have moves : ConnectionStep (!s.running) (!t.running) c c' :=
          .command (by rw [running]) line acted
        refine .inr ⟨c, isConnection, ?_⟩
        obtain ⟨-, -, ⟨stays, rfl⟩ | ⟨asks, rfl⟩ | ⟨leaves, rfl⟩⟩ := Connection.command_cases acted
        · refine .client server moves rfl rfl rfl [] (List.append_nil _).symm ?_
          simp [typed, isConnection, stays]
        · refine .client server moves rfl rfl rfl [(c.issued, line)] rfl ?_
          simp [typed, isConnection, asks]
        · refine .client server moves rfl rfl rfl [(c.issued, line)] rfl ?_
          simp [typed, isConnection, leaves]
      · refine .inr ⟨c', isConnection, .refl running (by rw [server]) rfl ?_ rfl⟩
        simp [typed, isConnection, Ne.symm other]
  | serve fd' => exact .inr (linked.moved_serve step found)
  | arrive fd' =>
      obtain ⟨running, server, ⟨rfl, c, isConnection, acted⟩ | ⟨other, isConnection⟩⟩ :=
        moved_update step found
      · have moves : ConnectionStep (!s.running) (!t.running) c c' :=
          .arrive (by rw [running]) acted
        obtain ⟨arrived, inFlight, rfl, -⟩ := Connection.arrive_cases acted
        exact .inr ⟨c, isConnection,
          .client server moves rfl rfl rfl [] (List.append_nil _).symm rfl⟩
      · exact .inr ⟨c', isConnection, .refl running (by rw [server]) rfl rfl rfl⟩
  | receive fd' =>
      obtain ⟨running, server, ⟨rfl, c, isConnection, acted⟩ | ⟨other, isConnection⟩⟩ :=
        moved_update step found
      · have moves : ConnectionStep (!s.running) (!t.running) c c' :=
          .receive (by rw [running]) acted
        obtain ⟨frame, rest, -, read⟩ := Connection.receive_cases acted
        have kept : c'.forwarded = c.forwarded ∧ c'.requests = c.requests := by
          rcases read with ⟨-, -, rfl⟩ | ⟨-, -, -, rfl⟩ | ⟨-, -, -, rfl⟩ | ⟨request, -, rfl⟩ |
            ⟨-, rfl⟩
          all_goals exact ⟨rfl, rfl⟩
        refine .inr ⟨c, isConnection, .client server moves rfl rfl kept.1 [] ?_ rfl⟩
        rw [kept.2, List.append_nil]
      · exact .inr ⟨c', isConnection, .refl running (by rw [server]) rfl rfl rfl⟩
  | shutdown => exact .inr (moved_shutdown step found)

/-- A connection stays, or is replaced by a new one. -/
theorem connection_persists (step : s.next event = some t) (found : s.connection fd = some c) :
    ∃ c', t.connection fd = some c' := by
  have updated : ∀ fd' after, ∃ c', (s.update fd' after).connection fd = some c' := by
    intro fd' after
    by_cases same : fd = fd'
    · subst same
      exact ⟨after, s.update_self after⟩
    · exact ⟨c, by rw [s.update_of_ne after same, found]⟩
  cases event with
  | join fd' name =>
      obtain ⟨-, -, -, -, ⟨-, connection⟩ | ⟨-, -, connection⟩⟩ := join_cases step
      · exact ⟨c, connection ▸ found⟩
      · rw [connection]
        exact updated fd' { name }
  | command fd' line =>
      obtain ⟨-, after, -, -, rfl⟩ := update_cases step
      exact updated fd' after
  | arrive fd' =>
      obtain ⟨-, after, -, -, rfl⟩ := update_cases step
      exact updated fd' after
  | receive fd' =>
      obtain ⟨-, after, -, -, rfl⟩ := update_cases step
      exact updated fd' after
  | serve fd' =>
      obtain ⟨c₀, _, request, _, requests, _, wire, -, -, -, -, -, rfl⟩ := serve_cases step
      obtain ⟨c', found'⟩ := updated fd' { c₀ with requests }
      exact ⟨_, postAll_eq_some found' request wire.attempts⟩
  | shutdown =>
      obtain ⟨-, -, connection⟩ := shutdown_cases step
      rw [connection]
      exact ⟨_, postAll_eq_some found _ _⟩

/-- The registry after a step. A name is registered by joining only. -/
theorem Linked.server_next (linked : Linked s) (step : s.next event = some t) :
    Registered t.server ∧ (∀ name ∈ t.server.clients.keys, validateName name = true) ∧
      ∀ name fd, t.server.clients.find? name = some fd →
        s.server.clients.find? name = some fd ∨ t.connection fd = some { name } := by
  have unchanged : t.server = s.server → Registered t.server ∧
      (∀ name ∈ t.server.clients.keys, validateName name = true) ∧
        ∀ name fd, t.server.clients.find? name = some fd →
          s.server.clients.find? name = some fd ∨ t.connection fd = some { name } := by
    intro same
    rw [same]
    exact ⟨linked.registered, linked.valid, fun _ _ registered => .inl registered⟩
  cases event with
  | join fd' name =>
      obtain ⟨valid, -, -, server, outcome⟩ := join_cases step
      refine ⟨?_, ?_⟩
      · rw [server]
        exact registered_connectNewClient linked.registered fd' (some name) ⟨[], []⟩
      · rcases outcome with ⟨clients, -⟩ | ⟨-, clients, connection⟩
        · rw [clients]
          exact ⟨linked.valid, fun _ _ registered => .inl registered⟩
        · rw [clients]
          refine ⟨fun other member => ?_, fun other fd registered => ?_⟩
          · rcases SortedMap.mem_keys_insert.mp member with rfl | old
            · exact valid
            · exact linked.valid other old
          · rw [SortedMap.find?_insert] at registered
            split_ifs at registered with same
            · obtain rfl := Option.some.inj registered
              rw [connection, Function.update_self, same]
              exact .inr rfl
            · exact .inl registered
  | command fd' line =>
      obtain ⟨-, after, -, -, rfl⟩ := update_cases step
      exact unchanged rfl
  | arrive fd' =>
      obtain ⟨-, after, -, -, rfl⟩ := update_cases step
      exact unchanged rfl
  | receive fd' =>
      obtain ⟨-, after, -, -, rfl⟩ := update_cases step
      exact unchanged rfl
  | serve fd' =>
      obtain ⟨c₀, name, request, line, requests, server, wire, -, found₀, registered₀, oldest,
        served, isNext⟩ := serve_cases step
      obtain rfl : t.server = server := by rw [isNext]
      obtain rfl := linked.name_of_registered found₀ registered₀
      refine ⟨?_, ?_⟩
      · rcases handleClientRequest_serve registered₀ served with same | ⟨asked, after⟩
        · exact same ▸ linked.registered
        · exact registered_serve linked.registered after
      · rcases (linked.orderly fd' c₀ found₀).asked (request, line) (by simp [oldest]) with
          asks | leaves
        · obtain ⟨sameClients, -⟩ := handleClientRequest_request linked.registered asks served
          rw [sameClients]
          exact ⟨linked.valid, fun _ _ registered => .inl registered⟩
        · rw [handleClientRequest_exit leaves, Except.ok.injEq, Prod.mk.injEq] at served
          have clients : t.server.clients = s.server.clients.erase c₀.name := by
            rw [← served.1]
            rfl
          rw [clients]
          refine ⟨fun other member => ?_, fun other fd registered => .inl ?_⟩
          · exact linked.valid other (SortedMap.mem_keys_erase.mp member).2
          · rw [SortedMap.find?_erase] at registered
            split_ifs at registered
            exact registered
  | shutdown => exact unchanged (shutdown_cases step).1

theorem Linked.next (linked : Linked s) (step : s.next event = some t) : Linked t := by
  obtain ⟨registered, valid, names⟩ := linked.server_next step
  refine ⟨registered, valid, fun name fd isClient => ?_, fun fd c' found => ?_⟩
  · rcases names name fd isClient with old | new
    · obtain ⟨c, isConnection, isName⟩ := linked.connected name fd old
      obtain ⟨c', found⟩ := connection_persists step isConnection
      rcases linked.moved step found with ⟨isJoin, -⟩ | ⟨before, found', moved⟩
      · rw [isJoin] at step
        exact absurd old ((join_cases step).2.1 name)
      · rw [isConnection, Option.some.injEq] at found'
        exact ⟨c', found, by rw [moved.step.name, ← found', isName]⟩
    · exact ⟨_, new, rfl⟩
  · rcases linked.moved step found with ⟨-, isNew, isClient⟩ | ⟨c, isConnection, moved⟩
    · rw [isNew]
      exact ⟨⟨fun _ => .inl .nil, nofun, .slnil⟩, nofun, nofun, nofun, fun _ => isClient, nofun⟩
    · exact (linked.orderly fd c isConnection).later moved

theorem linked_initial (clientsfds : Finset Int) : Linked (initialSession clientsfds) where
  registered := registered_initial clientsfds
  valid := fun name member => by
    obtain ⟨fd, found⟩ := SortedMap.mem_keys.mp member
    simp [initialSession, initialServer] at found
  connected := fun _ _ found => absurd found (by simp [initialSession, initialServer])
  orderly := fun _ _ found => absurd found (by simp [initialSession])

end Sessions

end Os2018.Whatsapp
