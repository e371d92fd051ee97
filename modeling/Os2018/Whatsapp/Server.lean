import Mathlib.Data.Finset.Basic
import Os2018.Library.SortedMap
import Os2018.Whatsapp.Io

/-!
# The server

The server keeps the registered clients in a map from names to descriptors,
in a list of the same names, and the groups in a map from names to member
lists. Every function below takes the server and returns it changed, as the
source changes `server` in place.

What the server sends goes through `send_data`, whose outcome is not the
server's to decide. `Wire` records the frames the server tried to send and
holds the outcomes of the calls to come. A record also says which kind of call
in the source made it; the server itself never looks at that. A call here always
returns: it looks neither at the length of its buffer nor at `SIGPIPE`. Which
strings are too long for a frame or for the buffer can be read off the record.
-/

set_option autoImplicit false

namespace Os2018.Whatsapp

/-- A name and a descriptor: an entry of `clients`, or a copy of one. -/
abbrev Client := CppString × Int

structure WhatsappServer where
  clients : SortedMap CppString Int
  groups : SortedMap CppString (List CppString)
  clientsList : List CppString
  clientsfds : Finset Int

/-- Why the source sends a frame: as the response to a request, as one of the
two frames of a forwarded chat message, or because it shuts down. -/
inductive Role where
  | response
  | marker
  | chat
  | exitNotice
  deriving DecidableEq, Repr

/-- A call of `send_data`: where to, which string, why, and whether it
succeeded. -/
structure Attempt where
  fd : Int
  frame : CppString
  role : Role
  delivered : Bool
  deriving DecidableEq, Repr

/-- The calls of `send_data` made so far, and whether the next ones succeed. A
call for which no outcome is given succeeds. -/
structure Wire where
  attempts : List Attempt
  outcomes : List Bool

/-- `e(send_data(fd, frame), "write")`: whether the call failed. -/
def Wire.send (wire : Wire) (fd : Int) (frame : CppString) (role : Role) : Bool × Wire :=
  let delivered := wire.outcomes.headD true
  (!delivered, ⟨wire.attempts ++ [⟨fd, frame, role, delivered⟩], wire.outcomes.tail⟩)

/-- The response frame to a client; whether it was delivered is ignored. -/
def Wire.respond (wire : Wire) (fd : Int) (frame : CppString) : Wire :=
  (wire.send fd frame .response).2

/-! ## Helpers of `whatsappServer.h` -/

/-- `std::sort` on strings, whose order is total. -/
def sortNames (names : List CppString) : List CppString := names.insertionSort (· ≤ ·)

/-- `std::includes` on sorted ranges: the elements of the second, counted with
their repetitions, are among those of the first. -/
def includes : List CppString → List CppString → Bool
  | _, [] => true
  | [], _ :: _ => false
  | x :: xs, y :: ys =>
      if y < x then false
      else if x < y then includes xs (y :: ys)
      else includes xs ys

/-- `subset` sorts both of its arguments in place. -/
def subset (groupUsernames clientsList : List CppString) :
    Bool × List CppString × List CppString :=
  let groupUsernames := sortNames groupUsernames
  let clientsList := sortNames clientsList
  (includes clientsList groupUsernames, groupUsernames, clientsList)

/-- The pass of `std::unique` after it kept a name. -/
def uniqueAfter (kept : CppString) : List CppString → List CppString
  | [] => [kept]
  | name :: names =>
      if kept = name then uniqueAfter kept names else kept :: uniqueAfter name names

/-- `std::unique` followed by `erase`: of equal neighbours the first stays. -/
def unique : List CppString → List CppString
  | [] => []
  | name :: names => uniqueAfter name names

def removeGroupDuplicates (group : List CppString) : List CppString := unique (sortNames group)

/-- `clients[name]`, which adds an entry with descriptor 0 when there is none. -/
def clientsIndex (server : WhatsappServer) (name : CppString) : Int × WhatsappServer :=
  match server.clients.find? name with
  | some fd => (fd, server)
  | none => (0, { server with clients := server.clients.insert name 0 })

/-! ## Requests -/

def createGroup (server : WhatsappServer) (client : Client) (groupName : CppString)
    (group : List CppString) (wire : Wire) : WhatsappServer × Wire :=
  if server.clients.contains groupName || server.groups.contains groupName then
    (server, wire.respond client.2 nameExistsSignal)
  else
    let group := removeGroupDuplicates (group ++ [client.1])
    if group.length < 2 then (server, wire.respond client.2 failureSignal)
    else
      let sorted := subset group server.clientsList
      let server := { server with clientsList := sorted.2.2 }
      if sorted.1 then
        ({ server with groups := server.groups.insert groupName sorted.2.1 },
          wire.respond client.2 successSignal)
      else (server, wire.respond client.2 failureSignal)

/-- The two frames of a chat message to one client: whether one of the two
calls failed. The second call is made only when the first succeeds. -/
def forward (server : WhatsappServer) (clientName command : CppString) (wire : Wire) :
    Bool × WhatsappServer × Wire :=
  let (fd, server) := clientsIndex server clientName
  let (failed, wire) := wire.send fd sendQue .marker
  if failed then (true, server, wire)
  else
    let (fd, server) := clientsIndex server clientName
    let (failed, wire) := wire.send fd command .chat
    (failed, server, wire)

/-- The loop of `send` over the members of a group, left at the first
failure. -/
def forwardToMembers (client : Client) (command : CppString) :
    List CppString → WhatsappServer → Wire → Bool × WhatsappServer × Wire
  | [], server, wire => (false, server, wire)
  | clientName :: members, server, wire =>
      if clientName = client.1 then forwardToMembers client command members server wire
      else
        match forward server clientName command wire with
        | (true, server, wire) => (true, server, wire)
        | (false, server, wire) => forwardToMembers client command members server wire

/-- `name(client) + ": " + message`. -/
def chatText (client : Client) (message : CppString) : CppString :=
  client.1 ++ ": ".toList ++ message

/-- The response of `send`: failure when a call failed. -/
def sendOutcome (failed : Bool) : CppString := if failed then failureSignal else successSignal

def send (server : WhatsappServer) (client : Client) (sendTo message : CppString)
    (wire : Wire) : WhatsappServer × Wire :=
  let command := chatText client message
  if server.clients.contains sendTo then
    match forward server sendTo command wire with
    | (failed, server, wire) => (server, wire.respond client.2 (sendOutcome failed))
  else
    match server.groups.find? sendTo with
    | some members =>
        if client.1 ∈ members then
          match forwardToMembers client command members server wire with
          | (failed, server, wire) => (server, wire.respond client.2 (sendOutcome failed))
        else (server, wire.respond client.2 failureSignal)
    | none => (server, wire.respond client.2 failureSignal)

/-- `whoList`: every name followed by a comma, and the last byte removed. -/
def whoList (clientsList : List CppString) : CppString :=
  (clientsList.flatMap fun clientName => clientName ++ [',']).dropLast

def who (server : WhatsappServer) (client : Client) (wire : Wire) : WhatsappServer × Wire :=
  let server := { server with clientsList := sortNames server.clientsList }
  (server, wire.respond client.2 (whoList server.clientsList))

/-- `clientExit`, with the loop over the groups read as one pass that removes
the entries of the groups left empty. -/
def clientExit (server : WhatsappServer) (client : Client) : WhatsappServer where
  clientsfds := server.clientsfds.erase client.2
  groups := server.groups.filterMap fun group =>
    let group := group.filter (· ≠ client.1)
    if group.isEmpty then none else some group
  clientsList := server.clientsList.filter (· ≠ client.1)
  clients := server.clients.erase client.1

/-- `serverExit`: the frames it sends; the process ends afterwards. -/
def serverExit (server : WhatsappServer) (wire : Wire) : Wire :=
  server.clients.entries.foldl
    (fun wire client => (wire.send client.2 exitSignal .exitNotice).2) wire

/-! ## Connections and dispatch -/

/-- `connectNewClient` after `accept` returned a descriptor. The name is absent
when `read_data` failed. -/
def connectNewClient (server : WhatsappServer) (newSocket : Int)
    (newClientName : Option CppString) (wire : Wire) : WhatsappServer × Wire :=
  let server := { server with clientsfds := insert newSocket server.clientsfds }
  match newClientName with
  | none => (server, wire.respond newSocket failureSignal)
  | some newClientName =>
      if server.clients.contains newClientName || server.groups.contains newClientName then
        (server, wire.respond newSocket nameExistsSignal)
      else
        ({ server with
            clients := server.clients.insert newClientName newSocket
            clientsList := server.clientsList ++ [newClientName] },
          wire.respond newSocket successSignal)

/-- `handleClientRequest`. The command is absent when `read_data` failed; the
server does not survive an exception or an overrun in `parseCommand`. -/
def handleClientRequest (server : WhatsappServer) (client : Client) (command : Option CppString)
    (wire : Wire) : Except ParseError (WhatsappServer × Wire) :=
  match command with
  | none => .ok (server, wire.respond client.2 failureSignal)
  | some command => do
      let parsed ← parseCommand command
      match parsed.commandT with
      | .createGroup => return createGroup server client parsed.name parsed.clients wire
      | .send => return send server client parsed.name parsed.message wire
      | .who => return who server client wire
      | .exit => return (clientExit server client, wire)
      | .invalid => return (server, wire)

/-- The server before the first connection. -/
def initialServer (clientsfds : Finset Int) : WhatsappServer where
  clients := .empty
  groups := .empty
  clientsList := []
  clientsfds := clientsfds

end Os2018.Whatsapp
