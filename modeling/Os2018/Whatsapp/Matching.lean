import Os2018.Whatsapp.Delivery
import Os2018.Whatsapp.Session

/-!
# Responses and chat messages on one connection

A client that waits for a response takes the next frame for it, whatever the
frame is. So the frames meant for the main loop must not come first: no frame
may be on its way when a client sends a command, and the server may not write a
chat message, or an exit notice, to a client whose request it has not handled
yet. `Undisturbed` states this for one step. In every run all of whose steps
meet it, every response is the response to its own request and every chat
message is printed, once and in order (`responses_match_chat_intact`).

The invariant describes the frames in a connection's queue by the phase of its
client (`Connection.Shape`). At `select` they are whole chat messages; a client
that has read a marker still has the text in front; a waiting client either has
its request unhandled and nothing to read, or the response in front.
-/

set_option autoImplicit false

namespace Os2018.Whatsapp

open Transition

/-! ## The condition on a step -/

/-- The recipients of the chat message that a request line asks for. -/
def lineRecipients (server : WhatsappServer) (client line : CppString) : List CppString :=
  match parseCommand line with
  | .ok parsed => if parsed.commandT = .send then recipients server client parsed.name else []
  | .error _ => []

/-- A command is sent only when no frame is on its way to the client, and the
server writes a chat message or an exit notice only to clients without an
unhandled request. -/
def Undisturbed (s : Session) : SessionEvent → Prop
  | .command fd line => ∀ c, s.connection fd = some c →
      clientCommand c.name line ≠ .ok .stay → c.inFlight = []
  | .serve fd => ∀ c request line requests, s.connection fd = some c →
      c.requests = (request, line) :: requests →
      ∀ name ∈ lineRecipients s.server c.name line, ∀ fd', s.server.clients.find? name = some fd' →
        ∀ c', s.connection fd' = some c' → c'.requests = []
  | .shutdown => ∀ fd c, s.connection fd = some c →
      s.server.clients.find? c.name = some fd → c.requests = []
  | _ => True

/-! ## The frames of a connection -/

/-- Whole chat messages, and behind them an exit notice if the server has shut
down. -/
inductive ChatQueue : Bool → List Frame → Prop where
  | nil {closed : Bool} : ChatQueue closed []
  | exitNotice : ChatQueue true [⟨exitSignal, .exitNotice⟩]
  | message {closed : Bool} {text : CppString} {rest : List Frame} :
      ChatQueue closed rest → ChatQueue closed (⟨sendQue, .marker⟩ :: ⟨text, .chat⟩ :: rest)

theorem ChatQueue.append_message {queue : List Frame} (chat : ChatQueue false queue)
    (text : CppString) : ChatQueue false (queue ++ [⟨sendQue, .marker⟩, ⟨text, .chat⟩]) := by
  generalize isOpen : false = closed at chat ⊢
  induction chat with
  | nil => exact .message .nil
  | exitNotice => exact absurd isOpen Bool.false_ne_true
  | message _ ih => exact .message (ih isOpen)

theorem ChatQueue.append_exit {queue : List Frame} (chat : ChatQueue false queue) :
    ChatQueue true (queue ++ [⟨exitSignal, .exitNotice⟩]) := by
  generalize isOpen : false = closed at chat
  induction chat with
  | nil => exact .exitNotice
  | exitNotice => exact absurd isOpen Bool.false_ne_true
  | message _ ih => exact .message (ih isOpen)

/-- The frames of a connection, by the phase of its client. -/
def Connection.Shape (closed : Bool) (c : Connection) : Prop :=
  match c.phase with
  | .idle => c.requests = [] ∧ ChatQueue closed c.queue
  | .awaitingText => c.requests = [] ∧
      ∃ text rest, c.queue = ⟨text, .chat⟩ :: rest ∧ ChatQueue closed rest
  | .awaiting request =>
      (∃ line, c.requests = [(request, line)] ∧ clientCommand c.name line = .ok .request ∧
        c.queue = []) ∨
      (c.requests = [] ∧ ∃ frame rest, c.queue = frame :: rest ∧
        frame.origin = .response request ∧ ChatQueue closed rest)
  | .exited => chatTexts c.queue = [] ∧ (c.requests = [] ∨
      ∃ request line, c.requests = [(request, line)] ∧ clientCommand c.name line = .ok .exit)

/-- The server still has to do with this connection. -/
def Connection.Active (c : Connection) : Prop := c.phase ≠ .exited ∨ c.requests ≠ []

@[simp] theorem chatTexts_append (first second : List Frame) :
    chatTexts (first ++ second) = chatTexts first ++ chatTexts second := by
  simp [chatTexts]

/-! ## Steps of a client -/

section Client

variable {closed : Bool} {c c' : Connection}

theorem Connection.active_iff_of_running (before : c.phase ≠ .exited)
    (after : c'.phase ≠ .exited) : c'.Active ↔ c.Active :=
  iff_of_true (.inl after) (.inl before)

/-- What a step of the client process keeps on its connection. -/
structure Connection.Kept (closed : Bool) (c c' : Connection) : Prop where
  name : c'.name = c.name
  shape : c'.Shape closed
  active : closed = false → (c'.Active ↔ c.Active)
  responses : c.ResponsesMatch → c'.ResponsesMatch
  intact : c.ChatIntact → c'.ChatIntact

theorem Connection.command_kept {line : CppString} (shape : c.Shape closed)
    (quiet : clientCommand c.name line ≠ .ok .stay → c.inFlight = [])
    (step : c.command line = some c') : Connection.Kept closed c c' := by
  rw [command] at step
  split_ifs at step with ready
  obtain ⟨idle, nothing⟩ := ready
  rw [Shape, idle] at shape
  obtain ⟨noRequest, chat⟩ := shape
  rcases asked : clientCommand c.name line with error | action
  · rw [asked] at step
    cases step
  rw [asked] at step quiet
  cases action with
  | stay =>
      cases step
      refine ⟨rfl, ?_, fun _ => Iff.rfl, id, id⟩
      rw [Shape, idle]
      exact ⟨noRequest, chat⟩
  | request =>
      cases step
      have empty : c.queue = [] := by rw [queue, nothing, quiet (by decide), List.nil_append]
      refine ⟨rfl, .inl ⟨line, by rw [issue, noRequest]; rfl, asked, empty⟩, fun _ => ?_, id, id⟩
      exact active_iff_of_running (by rw [idle]; decide) (by simp [issue])
  | exit =>
      cases step
      have empty : c.queue = [] := by rw [queue, nothing, quiet (by decide), List.nil_append]
      refine ⟨rfl, ⟨congrArg chatTexts empty, .inr ⟨c.issued, line, ?_, asked⟩⟩, fun _ => ?_,
        id, id⟩
      · rw [issue, noRequest]
        rfl
      · exact ⟨fun _ => .inl (by rw [idle]; decide), fun _ => .inr (by simp [issue])⟩

theorem Connection.arrive_kept (shape : c.Shape closed) (step : c.arrive = some c') :
    Connection.Kept closed c c' := by
  rw [arrive] at step
  cases inFlight : c.inFlight with
  | nil =>
      rw [inFlight] at step
      cases step
  | cons frame rest =>
      rw [inFlight] at step
      cases step
      have same : c.arrived ++ [frame] ++ rest = c.queue := by
        rw [queue, inFlight, List.append_assoc, List.singleton_append]
      refine ⟨rfl, ?_, fun _ => Iff.rfl, id, ?_⟩
      · simpa only [Shape, queue, same] using shape
      · intro intact
        simpa only [ChatIntact, queue, same] using intact

section Receive

variable {frame : Frame} {rest : List Frame}

theorem Connection.queue_of_arrived (arrived : c.arrived = frame :: rest) :
    c.queue = frame :: (rest ++ c.inFlight) := by
  rw [queue, arrived, List.cons_append]

/-- An idle client reads a message's marker or the exit notice. -/
theorem Connection.receive_kept_idle (shape : c.Shape closed) (phase : c.phase = .idle)
    (arrived : c.arrived = frame :: rest) (step : c.receive = some c') :
    Connection.Kept closed c c' := by
  have front := c.queue_of_arrived arrived
  rw [receive, arrived, phase] at step
  rw [Shape, phase] at shape
  obtain ⟨noRequest, chat⟩ := shape
  rw [front] at chat
  generalize inQueue : rest ++ c.inFlight = remaining at chat front
  have sameTexts : frame.origin ≠ .chat → chatTexts remaining = chatTexts c.queue := by
    intro notChat
    simp [front, chatTexts, notChat]
  cases chat with
  | exitNotice =>
      cases step
      refine ⟨rfl, ⟨?_, .inl noRequest⟩, fun isOpen => ?_, id, fun intact => ?_⟩
      · rw [queue, inQueue]
        rfl
      · exact absurd isOpen.symm Bool.false_ne_true
      · rw [ChatIntact, queue, inQueue, sameTexts (by decide)]
        exact intact
  | message more =>
      cases step
      refine ⟨rfl, ⟨noRequest, _, _, inQueue, more⟩, fun _ => ?_, id, fun intact => ?_⟩
      · exact active_iff_of_running (by rw [phase]; decide) Phase.noConfusion
      · rw [ChatIntact, queue, inQueue, sameTexts (by decide)]
        exact intact

/-- A client that waits for a response reads it. -/
theorem Connection.receive_kept_awaiting {request : Nat} (shape : c.Shape closed)
    (phase : c.phase = .awaiting request) (arrived : c.arrived = frame :: rest)
    (step : c.receive = some c') : Connection.Kept closed c c' := by
  have front := c.queue_of_arrived arrived
  rw [receive, arrived, phase] at step
  rw [Shape, phase] at shape
  rcases shape with ⟨_, _, _, empty⟩ | ⟨noRequest, answer, more, isFront, isAnswer, chat⟩
  · rw [front] at empty
    cases empty
  cases step
  rw [front, List.cons.injEq] at isFront
  obtain ⟨rfl, rfl⟩ := isFront
  refine ⟨rfl, ⟨noRequest, chat⟩, fun _ => ?_, fun matched => ?_, fun intact => ?_⟩
  · exact active_iff_of_running (by rw [phase]; exact Phase.noConfusion) Phase.noConfusion
  · intro response member
    rcases List.mem_append.mp member with old | new
    · exact matched response old
    · rw [List.mem_singleton.mp new]
      exact isAnswer
  · rw [ChatIntact, front] at intact
    rw [ChatIntact, ← intact]
    simp [queue, chatTexts, isAnswer]

/-- A client that has read a marker reads the text. -/
theorem Connection.receive_kept_awaitingText (shape : c.Shape closed)
    (phase : c.phase = .awaitingText) (arrived : c.arrived = frame :: rest)
    (step : c.receive = some c') : Connection.Kept closed c c' := by
  have front := c.queue_of_arrived arrived
  rw [receive, arrived, phase] at step
  rw [Shape, phase] at shape
  obtain ⟨noRequest, text, more, isFront, chat⟩ := shape
  cases step
  rw [front, List.cons.injEq] at isFront
  obtain ⟨rfl, rfl⟩ := isFront
  refine ⟨rfl, ⟨noRequest, chat⟩, fun _ => ?_, id, fun intact => ?_⟩
  · exact active_iff_of_running (by rw [phase]; decide) Phase.noConfusion
  · rw [ChatIntact, front] at intact
    rw [ChatIntact, ← intact]
    simp [queue, chatTexts]

theorem Connection.receive_kept (shape : c.Shape closed) (step : c.receive = some c') :
    Connection.Kept closed c c' := by
  cases arrived : c.arrived with
  | nil =>
      rw [receive, arrived] at step
      cases step
  | cons frame rest =>
      cases phase : c.phase with
      | idle => exact receive_kept_idle shape phase arrived step
      | awaiting request => exact receive_kept_awaiting shape phase arrived step
      | awaitingText => exact receive_kept_awaitingText shape phase arrived step
      | exited =>
          rw [receive, arrived, phase] at step
          cases step

end Receive

end Client

/-! ## What the server writes to one connection -/

theorem framesTo_append (fd : Int) (request : Nat) (first second : List Attempt) :
    framesTo fd request (first ++ second) =
      framesTo fd request first ++ framesTo fd request second := by
  simp [framesTo]

theorem framesTo_eq_nil {fd : Int} (request : Nat) {attempts : List Attempt}
    (elsewhere : ∀ attempt ∈ attempts, attempt.fd ≠ fd) : framesTo fd request attempts = [] := by
  rw [framesTo, List.map_eq_nil_iff, List.filter_eq_nil_iff]
  intro attempt member
  simpa using elsewhere attempt member

/-- The calls made for a name go to the descriptor of that name. -/
def Addressed (server : WhatsappServer) (calls : CppString → List Attempt) : Prop :=
  ∀ name fd, server.clients.find? name = some fd → ∀ attempt ∈ calls name, attempt.fd = fd

section Addressed

variable {server : WhatsappServer} {calls : CppString → List Attempt} {fd : Int}

/-- Nothing reaches a descriptor that is not the descriptor of one of the
names. -/
theorem Addressed.framesTo_eq_nil (addressed : Addressed server calls) (request : Nat)
    {names : List CppString} (connected : ∀ name ∈ names, name ∈ server.clients.keys)
    (elsewhere : ∀ name ∈ names, server.clients.find? name ≠ some fd) :
    framesTo fd request (names.flatMap calls) = [] := by
  apply Whatsapp.framesTo_eq_nil request
  intro attempt member
  obtain ⟨name, inNames, isAttempt⟩ := List.mem_flatMap.mp member
  obtain ⟨other, found⟩ := SortedMap.mem_keys.mp (connected name inNames)
  rw [addressed name other found attempt isAttempt]
  exact fun same => elsewhere name inNames (same ▸ found)

/-- The descriptor of one of the names gets what is written for that name,
once. -/
theorem Addressed.framesTo_eq (addressed : Addressed server calls) (request : Nat)
    {names : List CppString} (nodup : names.Nodup)
    (connected : ∀ name ∈ names, name ∈ server.clients.keys)
    (apart : ∀ first second, server.clients.find? first = some fd →
      server.clients.find? second = some fd → first = second)
    {recipient : CppString} (member : recipient ∈ names)
    (found : server.clients.find? recipient = some fd) :
    framesTo fd request (names.flatMap calls) = framesTo fd request (calls recipient) := by
  obtain ⟨before, after, rfl⟩ := List.append_of_mem member
  have unique : ∀ name ∈ before ++ after, server.clients.find? name ≠ some fd := by
    intro name inRest isFound
    have same := apart name recipient isFound found
    subst same
    exact (List.nodup_middle.mp nodup |> List.nodup_cons.mp).1 inRest
  rw [List.flatMap_append, List.flatMap_cons, framesTo_append, framesTo_append,
    addressed.framesTo_eq_nil request
      (fun name inBefore => connected name (List.mem_append_left _ inBefore))
      (fun name inBefore => unique name (List.mem_append_left _ inBefore)),
    addressed.framesTo_eq_nil request
      (fun name inAfter =>
        connected name (List.mem_append_right _ (List.mem_cons_of_mem _ inAfter)))
      (fun name inAfter => unique name (List.mem_append_right _ inAfter)),
    List.nil_append, List.append_nil]

end Addressed

theorem addressed_chatAttempts (server : WhatsappServer) (command : CppString) :
    Addressed server (chatAttempts server command) := by
  intro name fd found attempt member
  simp only [chatAttempts, found, Option.getD_some, List.mem_cons, List.not_mem_nil,
    or_false] at member
  rcases member with rfl | rfl <;> rfl

theorem framesTo_chatAttempts {server : WhatsappServer} {name : CppString} {fd : Int}
    (found : server.clients.find? name = some fd) (request : Nat) (command : CppString) :
    framesTo fd request (chatAttempts server command name) =
      [⟨sendQue, .marker⟩, ⟨command, .chat⟩] := by
  simp [framesTo, chatAttempts, found, Attempt.toFrame]

/-- The exit notice to one client. -/
def exitAttempts (server : WhatsappServer) (name : CppString) : List Attempt :=
  [⟨(server.clients.find? name).getD 0, exitSignal, .exitNotice, true⟩]

theorem addressed_exitAttempts (server : WhatsappServer) :
    Addressed server (exitAttempts server) := by
  intro name fd found attempt member
  rw [List.mem_singleton.mp member, found]
  rfl

theorem serverExit_keys (server : WhatsappServer) :
    (serverExit server ⟨[], []⟩).attempts = server.clients.keys.flatMap (exitAttempts server) := by
  rw [serverExit_attempts, SortedMap.keys, List.flatMap_map, List.map_eq_flatMap]
  apply List.flatMap_congr
  intro entry member
  rw [exitAttempts, SortedMap.find?_eq_some.mpr member]
  rfl

theorem lineRecipients_connected {server : WhatsappServer} (registered : Registered server)
    {client line name : CppString} (member : name ∈ lineRecipients server client line) :
    name ∈ server.clients.keys := by
  rw [lineRecipients] at member
  split at member
  · split_ifs at member
    · exact registered.recipients_connected member
    · exact absurd member List.not_mem_nil
  · exact absurd member List.not_mem_nil

theorem lineRecipients_nodup {server : WhatsappServer} (registered : Registered server)
    (client line : CppString) : (lineRecipients server client line).Nodup := by
  rw [lineRecipients]
  split
  · split_ifs
    · exact registered.recipients_nodup _ _
    · exact List.nodup_nil
  · exact List.nodup_nil

/-- **Handling a request line.** The server writes the chat message to its
recipients, the sender not among them, and one response to the sender. -/
theorem handleClientRequest_request {server after : WhatsappServer} {wire : Wire}
    (registered : Registered server) {name line : CppString} {fd : Int}
    (asks : clientCommand name line = .ok .request)
    (handled : handleClientRequest server (name, fd) (some line) ⟨[], []⟩ = .ok (after, wire)) :
    after.clients = server.clients ∧ name ∉ lineRecipients server name line ∧
      ∃ command text, wire.attempts =
        (lineRecipients server name line).flatMap (chatAttempts server command) ++
          [⟨fd, text, .response, true⟩] := by
  simp only [handleClientRequest] at handled
  rw [clientCommand] at asks
  rw [lineRecipients]
  rcases parsed : parseCommand line with error | ⟨commandT, target, message, clients⟩
  · rw [parsed] at handled
    cases handled
  rw [parsed] at handled asks
  cases commandT with
  | createGroup =>
      have result : createGroup server (name, fd) target clients ⟨[], []⟩ = (after, wire) :=
        Except.ok.inj handled
      obtain ⟨text, written⟩ := createGroup_attempts server (name, fd) target clients
      have kept := createGroup_clients server (name, fd) target clients ⟨[], []⟩
      rw [result] at written kept
      exact ⟨kept, List.not_mem_nil, [], text, written⟩
  | send =>
      have result : send server (name, fd) target message ⟨[], []⟩ = (after, wire) :=
        Except.ok.inj handled
      obtain ⟨text, written⟩ := send_attempts registered (name, fd) target message
      have kept := send_server registered (name, fd) target message ⟨[], []⟩
      rw [result] at written kept
      have other : target ≠ name := by
        rintro rfl
        simp at asks
      exact ⟨congrArg _ kept, sender_not_mem_recipients other, _, text, written⟩
  | who =>
      have result : who server (name, fd) ⟨[], []⟩ = (after, wire) := Except.ok.inj handled
      have written := registered.who_attempts (name, fd) []
      have kept : (who server (name, fd) ⟨[], []⟩).1.clients = server.clients := rfl
      rw [result] at written kept
      exact ⟨kept, List.not_mem_nil, [], _, written⟩
  | exit => cases asks
  | invalid => cases asks

theorem handleClientRequest_exit {server : WhatsappServer} {name line : CppString} {fd : Int}
    (leaves : clientCommand name line = .ok .exit) :
    handleClientRequest server (name, fd) (some line) ⟨[], []⟩ =
      .ok (clientExit server (name, fd), ⟨[], []⟩) := by
  rw [clientCommand] at leaves
  simp only [handleClientRequest]
  rcases parsed : parseCommand line with error | ⟨commandT, target, message, clients⟩
  · rw [parsed] at leaves
    cases error <;> cases leaves
  rw [parsed] at leaves
  cases commandT with
  | exit => rfl
  | createGroup =>
      dsimp only at leaves
      split_ifs at leaves <;> cases leaves
  | send =>
      dsimp only at leaves
      split_ifs at leaves <;> cases leaves
  | who => cases leaves
  | invalid => cases leaves

/-! ## Frames that the server adds -/

section Server

variable {closed closed' : Bool} {c : Connection}

@[simp] theorem Connection.post_nil (c : Connection) : c.post [] = c := by
  simp [post, chatTexts]

@[simp] theorem Connection.queue_post (c : Connection) (frames : List Frame) :
    (c.post frames).queue = c.queue ++ frames := by
  simp [queue, post]

theorem Connection.post_intact (frames : List Frame) (intact : c.ChatIntact) :
    (c.post frames).ChatIntact := by
  rw [ChatIntact] at intact
  rw [ChatIntact, queue_post, chatTexts_append, ← List.append_assoc]
  exact congrArg (· ++ chatTexts frames) intact

/-- Frames for the main loop, added for a client without an unhandled
request. -/
theorem Connection.Shape.post {frames : List Frame} (shape : c.Shape closed) (active : c.Active)
    (handled : c.requests = [])
    (extended : ∀ queue, ChatQueue closed queue → ChatQueue closed' (queue ++ frames)) :
    (c.post frames).Shape closed' := by
  have phase : (c.post frames).phase = c.phase := rfl
  rw [Shape] at shape ⊢
  rw [phase, queue_post]
  cases stands : c.phase with
  | idle =>
      rw [stands] at shape
      exact ⟨handled, extended _ shape.2⟩
  | awaitingText =>
      rw [stands] at shape
      obtain ⟨-, chat, rest, isQueue, more⟩ := shape
      exact ⟨handled, chat, _, by rw [isQueue, List.cons_append], extended _ more⟩
  | awaiting request =>
      rw [stands] at shape
      rcases shape with ⟨line, unhandled, -⟩ | ⟨-, frame, rest, isQueue, isAnswer, more⟩
      · rw [handled] at unhandled
        cases unhandled
      · exact .inr ⟨handled, frame, _, by rw [isQueue, List.cons_append], isAnswer,
          extended _ more⟩
  | exited =>
      rcases active with running | pending
      · exact absurd stands running
      · exact absurd handled pending

theorem Connection.Shape.of_inactive (shape : c.Shape closed) (inactive : ¬ c.Active) :
    c.Shape closed' := by
  rw [Active, not_or, not_not, not_not] at inactive
  rw [Shape, inactive.1] at shape ⊢
  exact shape

/-- A client with an unhandled request waits for the response with nothing to
read, or has left. -/
theorem Connection.Shape.oldest {request : Nat} {line : CppString}
    {requests : List (Nat × CppString)} (shape : c.Shape closed)
    (oldest : c.requests = (request, line) :: requests) :
    requests = [] ∧
      ((c.phase = .awaiting request ∧ clientCommand c.name line = .ok .request ∧ c.queue = []) ∨
        (c.phase = .exited ∧ clientCommand c.name line = .ok .exit ∧ chatTexts c.queue = [])) := by
  rw [Shape] at shape
  cases stands : c.phase with
  | idle =>
      rw [stands, oldest] at shape
      exact absurd shape.1 (List.cons_ne_nil _ _)
  | awaitingText =>
      rw [stands, oldest] at shape
      exact absurd shape.1 (List.cons_ne_nil _ _)
  | awaiting number =>
      rw [stands, oldest] at shape
      rcases shape with ⟨other, isOldest, asks, empty⟩ | ⟨noRequest, -⟩
      · cases isOldest
        exact ⟨rfl, .inl ⟨rfl, asks, empty⟩⟩
      · cases noRequest
  | exited =>
      rw [stands, oldest] at shape
      obtain ⟨noText, noRequest | ⟨number, other, isOldest, leaves⟩⟩ := shape
      · cases noRequest
      · cases isOldest
        exact ⟨rfl, .inr ⟨rfl, leaves, noText⟩⟩

theorem postAll_eq_some {connection : Int → Option Connection} {fd : Int}
    (found : connection fd = some c) (request : Nat) (attempts : List Attempt) :
    postAll connection request attempts fd = some (c.post (framesTo fd request attempts)) := by
  rw [postAll, found, Option.map_some]

end Server

/-! ## The invariant -/

/-- What holds of the connection at a descriptor. -/
structure Connection.Sound (s : Session) (fd : Int) (c : Connection) : Prop where
  shape : c.Shape (!s.running)
  active : s.running = true → (c.Active ↔ s.server.clients.find? c.name = some fd)
  responses : c.ResponsesMatch
  intact : c.ChatIntact

/-- The registered names belong to the connections that the server still has to
do with, and every connection is sound. -/
structure Consistent (s : Session) : Prop where
  registered : Registered s.server
  connected : ∀ name fd, s.server.clients.find? name = some fd →
    ∃ c, s.connection fd = some c ∧ c.name = name
  sound : ∀ fd c, s.connection fd = some c → c.Sound s fd

section Steps

variable {s t : Session}

/-- Two registered names have different descriptors. -/
theorem Consistent.apart (consistent : Consistent s) {fd : Int} (first second : CppString)
    (isFirst : s.server.clients.find? first = some fd)
    (isSecond : s.server.clients.find? second = some fd) : first = second := by
  obtain ⟨c, found, rfl⟩ := consistent.connected first fd isFirst
  obtain ⟨c', found', rfl⟩ := consistent.connected second fd isSecond
  rw [found, Option.some.injEq] at found'
  rw [found']

theorem consistent_initial (clientsfds : Finset Int) : Consistent (initialSession clientsfds) where
  registered := registered_initial clientsfds
  connected := fun _ _ found => absurd found (by simp [initialSession, initialServer])
  sound := fun _ _ found => absurd found (by simp [initialSession])

/-- The same connection where its client is registered as before. -/
theorem Connection.Sound.congr {c : Connection} {fd : Int} (sound : c.Sound s fd)
    (running : t.running = s.running) (clients : s.running = true →
      (t.server.clients.find? c.name = some fd ↔ s.server.clients.find? c.name = some fd)) :
    c.Sound t fd where
  shape := running ▸ sound.shape
  active := by
    intro isRunning
    rw [running] at isRunning
    exact (sound.active isRunning).trans (clients isRunning).symm
  responses := sound.responses
  intact := sound.intact

/-- The registered names have their connections when one connection changes. -/
theorem Consistent.connected_update (consistent : Consistent s) {fd fd' : Int}
    {c c' : Connection} {name : CppString} (found : s.connection fd = some c)
    (sameName : c'.name = c.name) (registered : s.server.clients.find? name = some fd') :
    ∃ other, (s.update fd c').connection fd' = some other ∧ other.name = name := by
  obtain ⟨other, foundOther, isName⟩ := consistent.connected name fd' registered
  by_cases same : fd' = fd
  · subst same
    rw [found, Option.some.injEq] at foundOther
    exact ⟨c', s.update_self c', by rw [sameName, foundOther, isName]⟩
  · exact ⟨other, by rw [s.update_of_ne c' same, foundOther], isName⟩

/-- A step of one client process. -/
theorem Consistent.update (consistent : Consistent s) {fd : Int} {c c' : Connection}
    (found : s.connection fd = some c) (kept : Connection.Kept (!s.running) c c') :
    Consistent (s.update fd c') := by
  have sound := consistent.sound fd c found
  refine ⟨consistent.registered, fun _ _ => consistent.connected_update found kept.name,
    fun fd' other => Session.forall_update ?_ fun _ foundOther => ?_⟩
  · refine ⟨kept.shape, ?_, kept.responses sound.responses, kept.intact sound.intact⟩
    intro running
    rw [kept.active (by rw [show s.running = true from running]; rfl), kept.name]
    exact sound.active running
  · exact (consistent.sound fd' other foundOther).congr rfl fun _ => Iff.rfl

theorem Consistent.join (consistent : Consistent s) {fd : Int} {name : CppString}
    (step : s.next (.join fd name) = some t) : Consistent t := by
  rw [Session.next] at step
  have registered := registered_connectNewClient consistent.registered fd (some name) ⟨[], []⟩
  dsimp only at step
  split_ifs at step with ready taken
  · cases step
    have kept : (connectNewClient s.server fd (some name) ⟨[], []⟩).1.clients =
        s.server.clients := by
      rw [connectNewClient]
      dsimp only
      rw [if_pos taken]
    refine ⟨registered, fun other fd' found => ?_, fun fd' c found => ?_⟩
    · exact consistent.connected other fd' (kept ▸ found)
    · refine (consistent.sound fd' c found).congr rfl fun _ => ?_
      dsimp only
      rw [kept]
  · cases step
    obtain ⟨running, -, fresh⟩ := ready
    obtain ⟨noClient, -⟩ := contains_or_eq_false taken
    have absent : s.server.clients.find? name = none := by
      rw [Option.eq_none_iff_forall_ne_some]
      exact fun fd' found => noClient (SortedMap.mem_keys.mpr ⟨fd', found⟩)
    have added : (connectNewClient s.server fd (some name) ⟨[], []⟩).1.clients =
        s.server.clients.insert name fd := by
      rw [connectNewClient]
      dsimp only
      rw [if_neg taken]
    refine ⟨registered, fun other fd' found => ?_,
      fun fd' c => Session.forall_update ?_ fun different found => ?_⟩
    · rw [Session.update_server, added, SortedMap.find?_insert] at found
      split_ifs at found with same
      · cases found
        exact ⟨{ name }, Session.update_self .., same.symm⟩
      · have elsewhere : fd' ≠ fd :=
          fresh (other, fd') (SortedMap.find?_eq_some.mp found)
        rw [Session.update_of_ne _ _ elsewhere]
        exact consistent.connected other fd' found
    · refine ⟨⟨rfl, .nil⟩, fun _ => ?_, fun _ member => absurd member List.not_mem_nil, rfl⟩
      rw [Session.update_server, added, SortedMap.find?_insert, if_pos rfl]
      exact ⟨fun _ => rfl, fun _ => .inl Phase.noConfusion⟩
    · refine (consistent.sound fd' c found).congr rfl fun _ => ?_
      rw [Session.update_server, added, SortedMap.find?_insert]
      split_ifs with isName
      · rw [isName, absent]
        exact ⟨fun isFd => absurd (Option.some.inj isFd).symm different,
          fun none => absurd none (by simp)⟩
      · rfl

/-- What the server does when it handles a request of a connection. -/
theorem serve_cases {fd : Int} (step : s.next (.serve fd) = some t) :
    ∃ c name request line requests server wire, s.running = true ∧
      s.connection fd = some c ∧ s.server.clients.find? name = some fd ∧
      c.requests = (request, line) :: requests ∧
      handleClientRequest s.server (name, fd) (some line) ⟨[], []⟩ = .ok (server, wire) ∧
      t = ⟨server, s.running,
        postAll (s.update fd { c with requests }).connection request wire.attempts⟩ := by
  rw [Session.next] at step
  split_ifs at step with running
  split at step
  next c client found isClient =>
    have isFd : client.2 = fd := by simpa using List.find?_some isClient
    have registered : s.server.clients.find? client.1 = some fd :=
      SortedMap.find?_eq_some.mpr (isFd ▸ List.mem_of_find?_eq_some isClient)
    have whole : client = (client.1, fd) := Prod.ext rfl isFd
    split at step
    · cases step
    next request line requests oldest =>
      split at step
      · cases step
      next server wire handled =>
        cases step
        rw [whole] at handled
        exact ⟨c, client.1, request, line, requests, server, wire, running, found, registered,
          oldest, handled, rfl⟩
  · cases step

/-- What calls made name by name write to one connection. -/
theorem Consistent.framesTo_flatMap (consistent : Consistent s)
    {calls : CppString → List Attempt} (addressed : Addressed s.server calls) (request : Nat)
    {names : List CppString} (nodup : names.Nodup)
    (connected : ∀ name ∈ names, name ∈ s.server.clients.keys) {fd : Int} {c : Connection}
    (found : s.connection fd = some c) :
    framesTo fd request (names.flatMap calls) =
      if c.name ∈ names ∧ s.server.clients.find? c.name = some fd then
        framesTo fd request (calls c.name) else [] := by
  split_ifs with served
  · exact addressed.framesTo_eq request nodup connected consistent.apart served.1 served.2
  · apply addressed.framesTo_eq_nil request connected
    intro name member registered
    obtain ⟨other, found', isName⟩ := consistent.connected name fd registered
    rw [found, Option.some.injEq] at found'
    subst found'
    exact served (isName ▸ ⟨member, registered⟩)

/-- What the server writes to each connection when it answers a request. -/
theorem Consistent.framesTo_written (consistent : Consistent s) {fd fd' : Int} {c : Connection}
    {request : Nat} {name line command text : CppString} {attempts : List Attempt}
    (written : attempts =
      (lineRecipients s.server name line).flatMap (chatAttempts s.server command) ++
        [⟨fd, text, .response, true⟩])
    (found : s.connection fd' = some c) :
    framesTo fd' request attempts =
      (if c.name ∈ lineRecipients s.server name line ∧
          s.server.clients.find? c.name = some fd' then
        [⟨sendQue, .marker⟩, ⟨command, .chat⟩] else []) ++
        if fd = fd' then [⟨text, .response request⟩] else [] := by
  rw [written, framesTo_append, consistent.framesTo_flatMap (addressed_chatAttempts _ _) request
    (lineRecipients_nodup consistent.registered _ _)
    (fun _ member => lineRecipients_connected consistent.registered member) found]
  congr 1
  · split_ifs with served
    · exact framesTo_chatAttempts served.2 request command
    · rfl
  · by_cases same : fd = fd' <;> simp [framesTo, same, Attempt.toFrame]

/-- A client that waits for nothing but the response gets it. -/
theorem Connection.Shape.answered {closed : Bool} {c : Connection} {request : Nat}
    (stands : c.phase = .awaiting request) (empty : c.queue = []) (text : CppString) :
    (({ c with requests := [] } : Connection).post [⟨text, .response request⟩]).Shape closed := by
  have phase : (({ c with requests := [] } : Connection).post
      [⟨text, .response request⟩]).phase = .awaiting request := stands
  have queue : (({ c with requests := [] } : Connection).post
      [⟨text, .response request⟩]).queue = [⟨text, .response request⟩] := by
    rw [Connection.queue_post]
    exact congrArg (· ++ _) empty
  rw [Connection.Shape, phase]
  exact .inr ⟨rfl, _, [], queue, rfl, .nil⟩

/-- A request that is answered. -/
theorem Consistent.serve_request (consistent : Consistent s) {fd : Int}
    (undisturbed : Undisturbed s (.serve fd)) {c : Connection} {request : Nat} {line : CppString}
    {requests : List (Nat × CppString)} {server : WhatsappServer} {wire : Wire}
    (running : s.running = true) (found : s.connection fd = some c)
    (registered : s.server.clients.find? c.name = some fd)
    (oldest : c.requests = (request, line) :: requests)
    (asks : clientCommand c.name line = .ok .request) (handledRegistry : Registered server)
    (handled : handleClientRequest s.server (c.name, fd) (some line) ⟨[], []⟩ =
      .ok (server, wire)) :
    Consistent ⟨server, s.running,
      postAll (s.update fd { c with requests }).connection request wire.attempts⟩ := by
  obtain ⟨sameClients, notSender, command, text, written⟩ :=
    handleClientRequest_request consistent.registered asks handled
  obtain ⟨rfl, ⟨stands, -, empty⟩ | ⟨-, leaves, -⟩⟩ :=
    (consistent.sound fd c found).shape.oldest oldest
  · refine ⟨handledRegistry, fun name fd' isClient => ?_, fun fd' posted isPosted => ?_⟩
    · rw [sameClients] at isClient
      obtain ⟨c', found', isName⟩ : ∃ other,
          (s.update fd { c with requests := [] }).connection fd' = some other ∧
            other.name = name := consistent.connected_update found rfl isClient
      exact ⟨_, postAll_eq_some found' request wire.attempts, isName⟩
    · obtain ⟨c', found', rfl⟩ := Option.map_eq_some_iff.mp isPosted
      by_cases same : fd' = fd
      · subst same
        rw [s.update_self, Option.some.injEq] at found'
        subst found'
        have sound := consistent.sound fd' c found
        rw [consistent.framesTo_written written found, if_neg (fun served => notSender served.1),
          if_pos rfl, List.nil_append]
        refine ⟨.answered stands empty text, fun _ => ?_, sound.responses,
          Connection.post_intact _ sound.intact⟩
        rw [sameClients]
        exact iff_of_true (.inl fun exited => by cases stands.symm.trans exited) registered
      · rw [s.update_of_ne _ same] at found'
        obtain ⟨shape, active, responses, intact⟩ := consistent.sound fd' c' found'
        rw [consistent.framesTo_written written found', if_neg (Ne.symm same), List.append_nil]
        refine ⟨?_, fun _ => ?_, responses, Connection.post_intact _ intact⟩
        · dsimp only
          rw [running] at shape ⊢
          split_ifs with served
          · exact shape.post ((active running).mpr served.2)
              (undisturbed c request line [] found oldest c'.name served.1 fd' served.2 c' found')
              fun _ chat => chat.append_message command
          · rw [Connection.post_nil]
            exact shape
        · rw [sameClients]
          exact active running
  · rw [asks] at leaves
    cases leaves

/-- A client's exit. -/
theorem Consistent.serve_exit (consistent : Consistent s) {fd : Int} {c : Connection}
    {request : Nat} {line : CppString} {requests : List (Nat × CppString)}
    (found : s.connection fd = some c)
    (registered : s.server.clients.find? c.name = some fd)
    (oldest : c.requests = (request, line) :: requests)
    (leaves : clientCommand c.name line = .ok .exit) :
    Consistent ⟨clientExit s.server (c.name, fd), s.running,
      postAll (s.update fd { c with requests }).connection request []⟩ := by
  have nothing : postAll (s.update fd { c with requests }).connection request [] =
      (s.update fd { c with requests }).connection := by
    funext fd'
    simp [postAll, framesTo]
  have clients : (clientExit s.server (c.name, fd)).clients = s.server.clients.erase c.name := rfl
  have sound := consistent.sound fd c found
  rw [nothing]
  refine ⟨registered_clientExit consistent.registered (c.name, fd), fun name fd' isClient => ?_,
    fun fd' c' => Session.forall_update ?_ fun different found' => ?_⟩
  · rw [clients, SortedMap.find?_erase] at isClient
    split_ifs at isClient with same
    exact consistent.connected_update found rfl isClient
  · obtain ⟨rfl, ⟨-, asks, -⟩ | ⟨stands, -, noText⟩⟩ := sound.shape.oldest oldest
    · rw [leaves] at asks
      cases asks
    · refine ⟨?_, fun _ => ?_, sound.responses, sound.intact⟩
      · have phase : ({ c with requests := [] } : Connection).phase = .exited := stands
        rw [Connection.Shape, phase]
        exact ⟨noText, .inl rfl⟩
      · rw [clients, SortedMap.find?_erase, if_pos rfl]
        refine iff_of_false (fun active => ?_) (by simp)
        exact active.elim (fun isRunning => isRunning stands) fun pending => pending rfl
  · refine (consistent.sound fd' c' found').congr rfl fun _ => ?_
    rw [clients, SortedMap.find?_erase]
    split_ifs with isName
    · rw [isName, registered]
      exact iff_of_false (by simp) fun isFd => different (Option.some.inj isFd).symm
    · exact Iff.rfl

theorem Consistent.serve (consistent : Consistent s) {fd : Int}
    (undisturbed : Undisturbed s (.serve fd)) (step : s.next (.serve fd) = some t) :
    Consistent t := by
  obtain ⟨c, name, request, line, requests, server, wire, running, found, registered, oldest,
    handled, rfl⟩ := serve_cases step
  obtain ⟨c', found', rfl⟩ := consistent.connected name fd registered
  rw [found, Option.some.injEq] at found'
  subst found'
  obtain ⟨-, ⟨-, asks, -⟩ | ⟨-, leaves, -⟩⟩ := (consistent.sound fd c found).shape.oldest oldest
  · have handledRegistry : Registered server := by
      rcases handleClientRequest_serve registered handled with rfl | ⟨asked, served⟩
      · exact consistent.registered
      · exact registered_serve consistent.registered served
    exact consistent.serve_request undisturbed running found registered oldest asks
      handledRegistry handled
  · rw [handleClientRequest_exit leaves] at handled
    cases handled
    exact consistent.serve_exit found registered oldest leaves

theorem Consistent.shutdown (consistent : Consistent s) (undisturbed : Undisturbed s .shutdown)
    (step : s.next .shutdown = some t) : Consistent t := by
  rw [Session.next] at step
  split_ifs at step with running
  cases step
  rw [serverExit_keys]
  refine ⟨consistent.registered, ?_, ?_⟩
  · intro name fd registered
    obtain ⟨c, found, isName⟩ := consistent.connected name fd registered
    exact ⟨_, postAll_eq_some found _ _, isName⟩
  · intro fd c' posted
    obtain ⟨c, found, rfl⟩ := Option.map_eq_some_iff.mp posted
    obtain ⟨shape, active, responses, intact⟩ := consistent.sound fd c found
    rw [running] at shape
    refine ⟨?_, fun closed => absurd closed Bool.false_ne_true, responses, c.post_intact _ intact⟩
    rw [consistent.framesTo_flatMap (addressed_exitAttempts s.server) 0
      s.server.clients.keys_nodup (fun _ member => member) found]
    split_ifs with served
    · rw [exitAttempts, served.2]
      have one : framesTo fd 0 [⟨(some fd).getD 0, exitSignal, .exitNotice, true⟩] =
          [⟨exitSignal, .exitNotice⟩] := by
        simp [framesTo, Attempt.toFrame]
      rw [one]
      exact shape.post ((active running).mpr served.2) (undisturbed fd c found served.2)
        fun _ chat => chat.append_exit
    · rw [Connection.post_nil]
      refine shape.of_inactive fun isActive => served ?_
      have registered := (active running).mp isActive
      exact ⟨SortedMap.mem_keys.mpr ⟨fd, registered⟩, registered⟩

theorem consistent_step {event : SessionEvent} (consistent : Consistent s)
    (undisturbed : Undisturbed s event) (step : s.next event = some t) : Consistent t := by
  cases event with
  | join fd name => exact consistent.join step
  | command fd line =>
      obtain ⟨c, found, rest⟩ := Option.bind_eq_some_iff.mp step
      obtain ⟨c', moved, rfl⟩ := Option.map_eq_some_iff.mp rest
      exact consistent.update found
        (Connection.command_kept (consistent.sound fd c found).shape (undisturbed c found) moved)
  | serve fd => exact consistent.serve undisturbed step
  | arrive fd =>
      obtain ⟨c, found, rest⟩ := Option.bind_eq_some_iff.mp step
      obtain ⟨c', moved, rfl⟩ := Option.map_eq_some_iff.mp rest
      exact consistent.update found
        (Connection.arrive_kept (consistent.sound fd c found).shape moved)
  | receive fd =>
      obtain ⟨c, found, rest⟩ := Option.bind_eq_some_iff.mp step
      obtain ⟨c', moved, rfl⟩ := Option.map_eq_some_iff.mp rest
      exact consistent.update found
        (Connection.receive_kept (consistent.sound fd c found).shape moved)
  | shutdown => exact consistent.shutdown undisturbed step

theorem consistent_of_reachable {clientsfds : Finset Int}
    (reachable : ((session clientsfds).restrict Undisturbed).Reachable s) : Consistent s := by
  refine reachable.invariant (P := Consistent) ?_ ?_
  · rintro _ rfl
    exact consistent_initial clientsfds
  · rintro _ _ _ _ consistent ⟨undisturbed, step⟩
    exact consistent_step consistent undisturbed step

/-! ## Every forwarded message can be printed -/

/-- A client with frames to come either has nothing left to print or takes
another step. -/
theorem Connection.Shape.progress {closed : Bool} {c : Connection} (shape : c.Shape closed) :
    chatTexts c.queue = [] ∨ (∃ c', c.arrive = some c' ∧ c'.forwarded = c.forwarded ∧
        c'.inFlight.length + 1 = c.inFlight.length ∧ c'.queue.length = c.queue.length) ∨
      ∃ c', c.receive = some c' ∧ c'.forwarded = c.forwarded ∧
        c'.inFlight.length = c.inFlight.length ∧ c'.queue.length + 1 = c.queue.length := by
  cases inFlight : c.inFlight with
  | cons frame rest =>
      rw [arrive, inFlight]
      exact .inr (.inl ⟨_, rfl, rfl, rfl, by simp [queue, inFlight]⟩)
  | nil =>
      cases arrived : c.arrived with
      | nil => exact .inl (by rw [queue, inFlight, arrived]; rfl)
      | cons frame rest =>
          rw [receive, arrived]
          cases phase : c.phase with
          | exited =>
              rw [Shape, phase] at shape
              exact .inl shape.1
          | idle =>
              dsimp only
              refine .inr (.inr ?_)
              split_ifs <;> exact ⟨_, rfl, rfl, by simp [inFlight], by simp [queue, arrived]⟩
          | awaiting request =>
              exact .inr (.inr ⟨_, rfl, rfl, by simp [inFlight], by simp [queue, arrived]⟩)
          | awaitingText =>
              exact .inr (.inr ⟨_, rfl, rfl, by simp [inFlight], by simp [queue, arrived]⟩)

/-- The arrival of the frames under way and the client's own steps are enough to
print every message forwarded so far. -/
theorem Consistent.exists_printed {fd : Int} {c : Connection} (consistent : Consistent s)
    (found : s.connection fd = some c) :
    ∃ events t c', (∀ event ∈ events, event = .arrive fd ∨ event = .receive fd) ∧
      exec Session.next s events = some t ∧ t.connection fd = some c' ∧
      c'.printed = c.forwarded := by
  induction remaining : c.inFlight.length + c.queue.length using Nat.strong_induction_on
    generalizing s c with
  | _ size ih =>
      have sound := consistent.sound fd c found
      rcases sound.shape.progress with done | ⟨c', moved, kept, less, same⟩ |
        ⟨c', moved, kept, same, less⟩
      · refine ⟨[], s, c, fun _ member => absurd member List.not_mem_nil, rfl, found, ?_⟩
        have intact := sound.intact
        rw [Connection.ChatIntact, done, List.append_nil] at intact
        exact intact
      · have step : s.next (.arrive fd) = some (s.update fd c') := by
          rw [Session.next, found, Option.bind_some, moved, Option.map_some]
        obtain ⟨events, t, last, own, run, isLast, printed⟩ :=
          ih _ (by omega) (consistent_step consistent (by trivial) step) (s.update_self c') rfl
        refine ⟨.arrive fd :: events, t, last, ?_, ?_, isLast, printed.trans kept⟩
        · exact List.forall_mem_cons.mpr ⟨.inl rfl, own⟩
        · rw [exec_cons, step, Option.bind_some, run]
      · have step : s.next (.receive fd) = some (s.update fd c') := by
          rw [Session.next, found, Option.bind_some, moved, Option.map_some]
        obtain ⟨events, t, last, own, run, isLast, printed⟩ :=
          ih _ (by omega) (consistent_step consistent (by trivial) step) (s.update_self c') rfl
        refine ⟨.receive fd :: events, t, last, ?_, ?_, isLast, printed.trans kept⟩
        · exact List.forall_mem_cons.mpr ⟨.inr rfl, own⟩
        · rw [exec_cons, step, Option.bind_some, run]

end Steps

/-- **Responses match and chat messages stay intact** in every run whose steps
are undisturbed: every response read was written for that request, the messages
printed and still to be read are the messages forwarded, in order, and all of
them are printed once the frames under way have arrived and the client has read
them. -/
theorem responses_match_chat_intact {clientsfds : Finset Int} {s : Session}
    (reachable : ((session clientsfds).restrict Undisturbed).Reachable s) {fd : Int}
    {c : Connection} (found : s.connection fd = some c) :
    c.ResponsesMatch ∧ c.ChatIntact ∧
      ∃ events t c', (∀ event ∈ events, event = .arrive fd ∨ event = .receive fd) ∧
        exec Session.next s events = some t ∧ t.connection fd = some c' ∧
        c'.printed = c.forwarded := by
  have consistent := consistent_of_reachable reachable
  have sound := consistent.sound fd c found
  exact ⟨sound.responses, sound.intact, consistent.exists_printed found⟩

/-- Bob's message to ann, with nothing on its way to either. -/
def quietEvents : List SessionEvent :=
  [.join 4 "ann".toList, .join 5 "bob".toList, .command 5 "send ann hi".toList, .serve 5,
    .arrive 4]

theorem quietEvents_undisturbed :
    StepsMeet Session.next Undisturbed (initialSession ∅) quietEvents := by
  refine (stepsMeet_cons rfl).mpr ⟨trivial, (stepsMeet_cons rfl).mpr ⟨trivial, ?_⟩⟩
  refine (stepsMeet_cons rfl).mpr ⟨?_, (stepsMeet_cons rfl).mpr ⟨?_, ?_⟩⟩
  · intro c found _
    cases found
    rfl
  · intro c request line requests found oldest name member fd' registered c' found'
    cases found
    cases oldest
    have isAnn : name ∈ ["ann".toList] := member
    rw [List.mem_singleton.mp isAnn] at registered
    have isFour : some 4 = some fd' := registered
    cases isFour
    cases found'
    rfl
  · exact (stepsMeet_cons rfl).mpr ⟨trivial, fun before event after t split => by simp at split⟩

theorem responses_match_chat_intact_quiet : ∃ s c,
    exec Session.next (initialSession ∅) quietEvents = some s ∧ s.connection 4 = some c ∧
      c.forwarded = ["bob: hi".toList] ∧ c.printed = [] ∧ c.ChatIntact := by
  obtain ⟨s, run⟩ : ∃ s, exec Session.next (initialSession ∅) quietEvents = some s := ⟨_, rfl⟩
  have reachable : ((session ∅).restrict Undisturbed).Reachable s :=
    exec_restrict_reachable (.init rfl) quietEvents_undisturbed run
  cases run
  have intact := fun c => @responses_match_chat_intact ∅ _ reachable 4 c
  exact ⟨_, _, rfl, rfl, by decide +kernel, by decide +kernel, (intact _ rfl).2.1⟩

end Os2018.Whatsapp
