import Mathlib.Logic.Function.Basic
import Os2018.Library.Transition
import Os2018.Whatsapp.Server

/-!
# Clients, connections and the server together

Every connection is a queue of requests to the server and a queue of frames to
the client. The frames of the second queue arrive one at a time, so a client at
`select` may find nothing there although the server has written. The server
handles one request at a time, of any registered client: the bound of its `select`
plays no part here. All writes succeed and frames stay intact, whatever their
length. Where a line crashes the process that parses it, the run does not go on.

A client process is at `select`, or blocked in `read_data`: in `create_group`,
`send` or `who`, where it takes the next frame as the response, or in the main
loop, where it takes the next frame as the text that follows a marker. At
`select` it looks at the socket before it looks at its input, and drops a frame
that is neither a marker nor an exit notice.

Requests are numbered for each connection, and a frame carries the reason it
was written for. Neither is visible to the client or the server: they only
serve to state what a client reads.
-/

set_option autoImplicit false

namespace Os2018.Whatsapp

open Transition

/-! ## Frames and connections -/

/-- Why a frame was written. -/
inductive Origin where
  | response (request : Nat)
  | marker
  | chat
  | exitNotice
  deriving DecidableEq, Repr

structure Frame where
  text : CppString
  origin : Origin
  deriving DecidableEq, Repr

/-- Where a client process stands. -/
inductive Phase where
  /-- At `select` in the main loop. -/
  | idle
  /-- In `read_data` for the response to a request. -/
  | awaiting (request : Nat)
  /-- In `read_data` for the text behind a marker. -/
  | awaitingText
  /-- The process has ended. -/
  | exited
  deriving DecidableEq, Repr

/-- One connection with its client process. The last three fields record what
happened on it. -/
structure Connection where
  name : CppString
  phase : Phase := .idle
  issued : Nat := 0
  requests : List (Nat × CppString) := []
  arrived : List Frame := []
  inFlight : List Frame := []
  responses : List (Nat × Frame) := []
  printed : List CppString := []
  forwarded : List CppString := []
  deriving DecidableEq, Repr

/-- The frames the client has not read yet. -/
def Connection.queue (c : Connection) : List Frame := c.arrived ++ c.inFlight

structure Session where
  server : WhatsappServer
  running : Bool
  connection : Int → Option Connection

/-! ## The client -/

/-- What a typed line makes the client do. -/
inductive ClientAction where
  /-- It prints an error and goes back to `select`. -/
  | stay
  /-- It sends the line and reads a response. -/
  | request
  /-- It sends the line and ends. -/
  | exit
  deriving DecidableEq, Repr

/-- The branch of `main` for a line from standard input, with the checks of
`create_group` and `send`. An exception of `parseCommand` is caught. -/
def clientCommand (name line : CppString) : Except ParseError ClientAction :=
  match parseCommand line with
  | .error .outOfRange => .ok .stay
  | .error error => .error error
  | .ok parsed =>
      match parsed.commandT with
      | .createGroup =>
          if !validateName parsed.name then .ok .stay
          else if parsed.name = name then .ok .stay
          else if parsed.clients.any fun client => !validateName client then .ok .stay
          else .ok .request
      | .send =>
          if !validateName parsed.name || parsed.name = name then .ok .stay else .ok .request
      | .who => .ok .request
      | .exit => .ok .exit
      | .invalid => .ok .stay

/-- The client sends a line to the server. -/
def Connection.issue (c : Connection) (line : CppString) (phase : Phase) : Connection :=
  { c with phase, issued := c.issued + 1, requests := c.requests ++ [(c.issued, line)] }

/-- A line typed at a client whose socket has nothing to read. -/
def Connection.command (c : Connection) (line : CppString) : Option Connection :=
  if c.phase = .idle ∧ c.arrived = [] then
    match clientCommand c.name line with
    | .error _ => none
    | .ok .stay => some c
    | .ok .request => some (c.issue line (.awaiting c.issued))
    | .ok .exit => some (c.issue line .exited)
  else none

/-- The client reads the next frame. -/
def Connection.receive (c : Connection) : Option Connection :=
  match c.arrived with
  | [] => none
  | frame :: arrived =>
      match c.phase with
      | .idle =>
          if isServerExit frame.text then some { c with arrived, phase := .exited }
          else if isMessageFrom frame.text then some { c with arrived, phase := .awaitingText }
          else some { c with arrived }
      | .awaiting request =>
          some { c with arrived, phase := .idle, responses := c.responses ++ [(request, frame)] }
      | .awaitingText =>
          some { c with arrived, phase := .idle, printed := c.printed ++ [frame.text] }
      | .exited => none

/-- The next frame reaches the client's socket. -/
def Connection.arrive (c : Connection) : Option Connection :=
  match c.inFlight with
  | [] => none
  | frame :: inFlight => some { c with arrived := c.arrived ++ [frame], inFlight }

/-! ## What the server writes -/

/-- The frame of a call of `send_data` made for a request. -/
def Attempt.toFrame (request : Nat) (attempt : Attempt) : Frame where
  text := attempt.frame
  origin :=
    match attempt.role with
    | .response => .response request
    | .marker => .marker
    | .chat => .chat
    | .exitNotice => .exitNotice

/-- The frames written to one descriptor. -/
def framesTo (fd : Int) (request : Nat) (attempts : List Attempt) : List Frame :=
  (attempts.filter fun attempt => attempt.fd = fd).map (Attempt.toFrame request)

/-- The texts of the chat frames among some frames. -/
def chatTexts (frames : List Frame) : List CppString :=
  (frames.filter fun frame => frame.origin = .chat).map Frame.text

/-- Frames written to a connection. -/
def Connection.post (c : Connection) (frames : List Frame) : Connection :=
  { c with inFlight := c.inFlight ++ frames, forwarded := c.forwarded ++ chatTexts frames }

def postAll (connection : Int → Option Connection) (request : Nat) (attempts : List Attempt) :
    Int → Option Connection :=
  fun fd => (connection fd).map fun c => c.post (framesTo fd request attempts)

/-! ## Events -/

inductive SessionEvent where
  /-- A client connects under a name, is registered and reads the response. -/
  | join (fd : Int) (name : CppString)
  /-- A line is typed at a client. -/
  | command (fd : Int) (line : CppString)
  /-- The server handles the next request of a connection. -/
  | serve (fd : Int)
  /-- A frame reaches a client's socket. -/
  | arrive (fd : Int)
  /-- A client reads a frame. -/
  | receive (fd : Int)
  /-- `EXIT` is typed at the server. -/
  | shutdown

def Session.update (s : Session) (fd : Int) (c : Connection) : Session :=
  { s with connection := Function.update s.connection fd (some c) }

section Update

variable (s : Session) (c : Connection) {fd fd' : Int}

@[simp] theorem Session.update_server : (s.update fd c).server = s.server := rfl

@[simp] theorem Session.update_self : (s.update fd c).connection fd = some c :=
  Function.update_self ..

@[simp] theorem Session.update_of_ne (other : fd' ≠ fd) :
    (s.update fd c).connection fd' = s.connection fd' :=
  Function.update_of_ne other ..

/-- What holds of the new connection and of those at other descriptors. -/
theorem Session.forall_update {s : Session} {c other : Connection} {P : Int → Connection → Prop}
    (self : P fd c) (others : fd' ≠ fd → s.connection fd' = some other → P fd' other)
    (found : (s.update fd c).connection fd' = some other) : P fd' other := by
  by_cases same : fd' = fd
  · subst same
    rw [Session.update_self, Option.some.injEq] at found
    exact found ▸ self
  · rw [Session.update_of_ne _ _ same] at found
    exact others same found

end Update

/-- One step of the clients and the server. A descriptor is given to a new
connection only when no registered client uses it. -/
def Session.next (s : Session) : SessionEvent → Option Session
  | .join fd name =>
      if s.running ∧ validateName name ∧ ∀ entry ∈ s.server.clients.entries, entry.2 ≠ fd then
        let server := (connectNewClient s.server fd (some name) ⟨[], []⟩).1
        if s.server.clients.contains name || s.server.groups.contains name then
          some { s with server }
        else some ({ s with server }.update fd { name })
      else none
  | .command fd line =>
      (s.connection fd).bind fun c => (c.command line).map (s.update fd)
  | .serve fd =>
      if s.running then
        match s.connection fd, s.server.clients.entries.find? fun entry => entry.2 = fd with
        | some c, some client =>
            match c.requests with
            | [] => none
            | (request, line) :: requests =>
                match handleClientRequest s.server client (some line) ⟨[], []⟩ with
                | .error _ => none
                | .ok (server, wire) =>
                    let s := { s with server }.update fd { c with requests }
                    some { s with connection := postAll s.connection request wire.attempts }
        | _, _ => none
      else none
  | .arrive fd => (s.connection fd).bind fun c => c.arrive.map (s.update fd)
  | .receive fd => (s.connection fd).bind fun c => c.receive.map (s.update fd)
  | .shutdown =>
      if s.running then
        some { s with
          running := false
          connection := postAll s.connection 0 (serverExit s.server ⟨[], []⟩).attempts }
      else none

def initialSession (clientsfds : Finset Int) : Session where
  server := initialServer clientsfds
  running := true
  connection := fun _ => none

def session (clientsfds : Finset Int) : System Session SessionEvent :=
  .ofFunction Session.next (initialSession clientsfds)

/-! ## What a connection should look like -/

/-- What `create_group`, `send` and `who` read is the frame the server wrote in
response to that very request. -/
def Connection.ResponsesMatch (c : Connection) : Prop :=
  ∀ response ∈ c.responses, response.2.origin = .response response.1

/-- The chat messages printed and those still to be read are, in order, the chat
messages forwarded. -/
def Connection.ChatIntact (c : Connection) : Prop :=
  c.printed ++ chatTexts c.queue = c.forwarded

instance (c : Connection) : Decidable c.ResponsesMatch :=
  inferInstanceAs (Decidable (∀ response ∈ c.responses, _))

instance (c : Connection) : Decidable c.ChatIntact :=
  inferInstanceAs (Decidable (_ = _))

/-- Ann asks for the list of clients while bob's message to her is on its
way. -/
def crossingEvents : List SessionEvent :=
  [.join 4 "ann".toList, .join 5 "bob".toList, .command 4 "who".toList,
    .command 5 "send ann hi".toList, .serve 5, .serve 4, .arrive 4, .arrive 4, .arrive 4,
    .receive 4, .receive 4, .receive 4]

/-- **A chat message can be taken for a response.** The marker of bob's message
is read as the reply to `who`; the text behind it and the reply itself are then
dropped. -/
theorem marker_read_as_response : ∃ s c,
    exec Session.next (initialSession ∅) crossingEvents = some s ∧ s.connection 4 = some c ∧
      c.responses = [(0, ⟨sendQue, .marker⟩)] ∧ c.forwarded = ["bob: hi".toList] ∧
      c.printed = [] ∧ c.queue = [] ∧ ¬ c.ResponsesMatch ∧ ¬ c.ChatIntact := by
  refine ⟨_, _, rfl, rfl, ?_⟩
  decide +kernel

end Os2018.Whatsapp
