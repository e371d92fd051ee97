import Os2018.Whatsapp.Delivery

/-!
# The descriptors of the server

The server holds a socket for every connection it has accepted and not closed,
and watches a set of descriptors, `clientsfds`. `connectNewClient` adds the new
socket to the set before it reads a name; `clientExit` removes a socket from the
set and closes it. So the sockets held open are always the watched descriptors
other than the first two (`Holds`).

A connection that is turned away is neither removed nor closed: the set is free
of stray descriptors exactly as long as every connection registers a client
(`no_stray_iff`). The bound given to `select` is a number of clients, not of
descriptors: with the lowest free descriptor for each connection, every client is
watched exactly as long as a descriptor below the bound is free whenever a client
is registered (`clients_watched_iff`).
-/

set_option autoImplicit false

namespace Os2018.Whatsapp

open Transition

/-! ## The server and its sockets -/

/-- The descriptors that are open before the first connection. -/
structure StartDescriptors where
  sockfd : Int
  inUse : Finset Int
  sockfd_mem : sockfd ∈ inUse
  stdin_mem : 0 ∈ inUse
  stdout_mem : 1 ∈ inUse
  stderr_mem : 2 ∈ inUse

/-- The server, and the sockets of connections that it holds open. -/
structure Host where
  server : WhatsappServer
  sockets : Finset Int

/-- `FD_ZERO`, then `FD_SET` of `sockfd` and of `STDIN_FILENO`. -/
def initialHost (start : StartDescriptors) : Host := ⟨initialServer {start.sockfd, 0}, ∅⟩

def IsFree (start : StartDescriptors) (host : Host) (fd : Int) : Prop :=
  0 ≤ fd ∧ fd ∉ start.inUse ∧ fd ∉ host.sockets

instance (start : StartDescriptors) (host : Host) (fd : Int) : Decidable (IsFree start host fd) :=
  inferInstanceAs (Decidable (_ ∧ _))

/-- `accept` returns a descriptor that is not in use. -/
def Accepts (start : StartDescriptors) (host : Host) (event : Request × List Bool) : Prop :=
  match event.1 with
  | .connect newSocket _ => IsFree start host newSocket
  | _ => True

instance (start : StartDescriptors) (host : Host) (event : Request × List Bool) :
    Decidable (Accepts start host event) :=
  match event with
  | (.connect _ _, _) => inferInstanceAs (Decidable (IsFree _ _ _))
  | (.createGroup _ _ _, _) | (.send _ _ _, _) | (.who _, _) | (.exit _, _) => .isTrue trivial

/-- The sockets after a request: `accept` opens one, `clientExit` closes one. -/
def socketsAfter (host : Host) : Request → Finset Int
  | .connect newSocket _ => insert newSocket host.sockets
  | .exit client => match host.server.clients.find? client with
    | some fd => host.sockets.erase fd
    | none => host.sockets
  | _ => host.sockets

/-- A request with what it does to the sockets. When `accept` fails nothing
changes. -/
def serveHost (host : Host) (event : Request × List Bool) : Option Host :=
  (registryNext host.server event).map fun server => ⟨server, socketsAfter host event.1⟩

/-- The server between passes of its loop, with any descriptors from `accept`
that are not in use. -/
def hostNext (start : StartDescriptors) : Host → Request × List Bool → Option Host :=
  guarded serveHost (Accepts start)

/-! ## Statements -/

/-- The descriptor is that of a registered client. -/
def IsClientFd (host : Host) (fd : Int) : Prop :=
  ∃ name, host.server.clients.find? name = some fd

/-- No stray descriptors in the set of `select`, and no socket without a
client. -/
def NoStray (start : StartDescriptors) (host : Host) : Prop :=
  (∀ fd ∈ host.server.clientsfds, fd = start.sockfd ∨ fd = 0 ∨ IsClientFd host fd) ∧
    ∀ fd ∈ host.sockets, IsClientFd host fd

/-- A name was read and is taken neither by a client nor by a group. -/
def NameIsFresh (host : Host) (newClientName : Option CppString) : Prop :=
  ∃ name, newClientName = some name ∧ name ∉ host.server.clients.keys ∧
    name ∉ host.server.groups.keys

/-- A connection registers a client. -/
def ConnectionsRegister (host : Host) (event : Request × List Bool) : Prop :=
  ∀ newSocket newClientName, event.1 = .connect newSocket newClientName →
    NameIsFresh host newClientName

def maxClients : Nat := 10

/-- The bound that `main` passes to `select`. -/
def nfds : Int := maxClients + 1

/-- With at most `MAX_CLIENTS` of them, every client's descriptor is in the set
and below the bound. -/
def ClientsWatched (host : Host) : Prop :=
  host.server.clients.keys.length ≤ maxClients →
    ∀ name fd, host.server.clients.find? name = some fd →
      fd ∈ host.server.clientsfds ∧ fd < nfds

/-- `accept` returns the lowest descriptor that is not in use. -/
def AcceptsLowest (start : StartDescriptors) (host : Host) (event : Request × List Bool) : Prop :=
  match event.1 with
  | .connect newSocket _ => IsFree start host newSocket ∧
      ∀ fd < newSocket.toNat, ¬ IsFree start host fd
  | _ => True

instance (start : StartDescriptors) (host : Host) (event : Request × List Bool) :
    Decidable (AcceptsLowest start host event) :=
  match event with
  | (.connect _ _, _) => inferInstanceAs (Decidable (_ ∧ ∀ fd < _, ¬ IsFree _ _ _))
  | (.createGroup _ _ _, _) | (.send _ _ _, _) | (.who _, _) | (.exit _, _) => .isTrue trivial

/-- The server when `accept` gives out descriptors in the order the system
does. -/
def lowestNext (start : StartDescriptors) : Host → Request × List Bool → Option Host :=
  guarded serveHost (AcceptsLowest start)

/-- When a client is registered, a descriptor below the bound is free. -/
def RoomBelow (start : StartDescriptors) (host : Host) (event : Request × List Bool) : Prop :=
  ∀ newSocket newClientName, event.1 = .connect newSocket newClientName →
    NameIsFresh host newClientName → ∃ fd < nfds, IsFree start host fd

/-! ## What a request does to the descriptors -/

/-- What a request changes in the map of the clients, in the set of `select` and
in the sockets held open. -/
inductive HostChange (host : Host) (event : Request × List Bool) (after : Host) : Prop where
  | registers (newSocket : Int) (name : CppString)
      (asked : event.1 = .connect newSocket (some name))
      (fresh : NameIsFresh host (some name))
      (clients : after.server.clients = host.server.clients.insert name newSocket)
      (clientsfds : after.server.clientsfds = insert newSocket host.server.clientsfds)
      (sockets : after.sockets = insert newSocket host.sockets)
  | turnedAway (newSocket : Int) (newClientName : Option CppString)
      (asked : event.1 = .connect newSocket newClientName)
      (stale : ¬ NameIsFresh host newClientName)
      (clients : after.server.clients = host.server.clients)
      (clientsfds : after.server.clientsfds = insert newSocket host.server.clientsfds)
      (sockets : after.sockets = insert newSocket host.sockets)
  | leaves (client : CppString) (fd : Int)
      (asked : event.1 = .exit client)
      (found : host.server.clients.find? client = some fd)
      (clients : after.server.clients = host.server.clients.erase client)
      (clientsfds : after.server.clientsfds = host.server.clientsfds.erase fd)
      (sockets : after.sockets = host.sockets.erase fd)
  | none (other : ∀ newSocket newClientName, event.1 ≠ .connect newSocket newClientName)
      (clients : after.server.clients = host.server.clients)
      (clientsfds : after.server.clientsfds = host.server.clientsfds)
      (sockets : after.sockets = host.sockets)

theorem createGroup_clientsfds (server : WhatsappServer) (client : Client)
    (groupName : CppString) (group : List CppString) (wire : Wire) :
    (createGroup server client groupName group wire).1.clientsfds = server.clientsfds := by
  rw [createGroup]
  dsimp only
  split_ifs <;> rfl

theorem hostChange_connect {host after : Host} {newSocket : Int}
    {newClientName : Option CppString} {outcomes : List Bool}
    (served : serveHost host (.connect newSocket newClientName, outcomes) = some after) :
    HostChange host (.connect newSocket newClientName, outcomes) after := by
  cases served
  rcases newClientName with - | name
  · refine .turnedAway newSocket none rfl ?_ rfl rfl rfl
    rintro ⟨name, isName, -⟩
    cases isName
  by_cases taken :
      (host.server.clients.contains name || host.server.groups.contains name) = true
  · refine .turnedAway newSocket (some name) rfl ?_ ?_ ?_ rfl
    · rintro ⟨_, isName, noClient, noGroup⟩
      cases isName
      rw [Bool.or_eq_true, SortedMap.contains_iff, SortedMap.contains_iff] at taken
      exact taken.elim noClient noGroup
    · simp only [connectNewClient, if_pos taken]
    · simp only [connectNewClient, if_pos taken]
  · obtain ⟨noClient, noGroup⟩ := contains_or_eq_false taken
    refine .registers newSocket name rfl ⟨name, rfl, noClient, noGroup⟩ ?_ ?_ rfl
    · simp only [connectNewClient, if_neg taken]
    · simp only [connectNewClient, if_neg taken]

theorem serve_of_serveHost {host after : Host} {event : Request × List Bool}
    (served : serveHost host event = some after) :
    after.sockets = socketsAfter host event.1 ∧
      ∃ attempts, serve host.server event.1 event.2 = some (after.server, attempts) := by
  obtain ⟨server, isServer, rfl⟩ := Option.map_eq_some_iff.mp served
  obtain ⟨⟨_, attempts⟩, isServed, rfl⟩ := Option.map_eq_some_iff.mp isServer
  exact ⟨rfl, attempts, isServed⟩

theorem hostChange_of_serve {host after : Host} {event : Request × List Bool}
    (registered : Registered host.server) (served : serveHost host event = some after) :
    HostChange host event after := by
  rcases event with ⟨request, outcomes⟩
  cases request with
  | connect newSocket newClientName => exact hostChange_connect served
  | createGroup client groupName group =>
      obtain ⟨sockets, attempts, isServed⟩ := serve_of_serveHost served
      obtain ⟨fd, -, result⟩ := Option.map_eq_some_iff.mp isServed
      have same : (createGroup host.server (client, fd) groupName group ⟨[], outcomes⟩).1 =
          after.server := congrArg Prod.fst result
      refine .none (fun _ _ => nofun) ?_ ?_ sockets
      · rw [← same, createGroup_clients]
      · rw [← same, createGroup_clientsfds]
  | send client sendTo message =>
      obtain ⟨sockets, attempts, isServed⟩ := serve_of_serveHost served
      obtain ⟨fd, -, result⟩ := Option.map_eq_some_iff.mp isServed
      have same : (send host.server (client, fd) sendTo message ⟨[], outcomes⟩).1 =
          after.server := congrArg Prod.fst result
      rw [send_server registered] at same
      exact .none (fun _ _ => nofun) (by rw [same]) (by rw [same]) sockets
  | who client =>
      obtain ⟨sockets, attempts, isServed⟩ := serve_of_serveHost served
      obtain ⟨fd, -, result⟩ := Option.map_eq_some_iff.mp isServed
      have same : (who host.server (client, fd) ⟨[], outcomes⟩).1 = after.server :=
        congrArg Prod.fst result
      exact .none (fun _ _ => nofun) (by rw [← same]; rfl) (by rw [← same]; rfl) sockets
  | exit client =>
      obtain ⟨sockets, attempts, isServed⟩ := serve_of_serveHost served
      obtain ⟨fd, found, result⟩ := Option.map_eq_some_iff.mp isServed
      have same : clientExit host.server (client, fd) = after.server := congrArg Prod.fst result
      refine .leaves client fd rfl found (by rw [← same]; rfl) (by rw [← same]; rfl) ?_
      rw [sockets, socketsAfter, found]

/-! ## The invariant -/

/-- Watched are `sockfd`, the standard input and the sockets held open, and
every client has a socket of its own. -/
structure Holds (start : StartDescriptors) (host : Host) : Prop where
  registered : Registered host.server
  clientsfds : ∀ fd, fd ∈ host.server.clientsfds ↔
    fd = start.sockfd ∨ fd = 0 ∨ fd ∈ host.sockets
  sockets : ∀ fd ∈ host.sockets, 0 ≤ fd ∧ fd ∉ start.inUse
  client_socket : ∀ name fd, host.server.clients.find? name = some fd → fd ∈ host.sockets
  client_unique : ∀ name other fd, host.server.clients.find? name = some fd →
    host.server.clients.find? other = some fd → name = other

section Invariant

variable {start : StartDescriptors} {host after : Host} {event : Request × List Bool}

theorem holds_initial (start : StartDescriptors) : Holds start (initialHost start) where
  registered := registered_initial _
  clientsfds := by
    intro fd
    simp [initialHost, initialServer]
  sockets := fun _ member => absurd member (Finset.notMem_empty _)
  client_socket := fun _ _ found => absurd found (by simp [initialHost, initialServer])
  client_unique := fun _ _ _ found => absurd found (by simp [initialHost, initialServer])

/-- A socket that is held open is not `sockfd` or the standard input. -/
theorem Holds.socket_ne (holds : Holds start host) {fd : Int} (isOpen : fd ∈ host.sockets) :
    fd ≠ start.sockfd ∧ fd ≠ 0 := by
  have apart := (holds.sockets fd isOpen).2
  constructor
  · rintro rfl
    exact apart start.sockfd_mem
  · rintro rfl
    exact apart start.stdin_mem

theorem Holds.not_clientFd (holds : Holds start host) {fd : Int} (free : IsFree start host fd) :
    ¬ IsClientFd host fd := by
  rintro ⟨name, found⟩
  exact free.2.2 (holds.client_socket name fd found)

theorem isFree_of_connect {newSocket : Int} {newClientName : Option CppString}
    (accepts : Accepts start host event) (asked : event.1 = .connect newSocket newClientName) :
    IsFree start host newSocket := by
  rw [Accepts, asked] at accepts
  exact accepts

/-- A new socket keeps the part of the invariant that is not about clients. -/
theorem Holds.insert_socket (holds : Holds start host) {newSocket : Int}
    (free : IsFree start host newSocket)
    (clientsfds : after.server.clientsfds = insert newSocket host.server.clientsfds)
    (sockets : after.sockets = insert newSocket host.sockets) :
    (∀ fd, fd ∈ after.server.clientsfds ↔ fd = start.sockfd ∨ fd = 0 ∨ fd ∈ after.sockets) ∧
      ∀ fd ∈ after.sockets, 0 ≤ fd ∧ fd ∉ start.inUse := by
  constructor
  · intro fd
    rw [clientsfds, sockets, Finset.mem_insert, Finset.mem_insert, holds.clientsfds]
    tauto
  · intro fd member
    rw [sockets, Finset.mem_insert] at member
    rcases member with rfl | old
    · exact ⟨free.1, free.2.1⟩
    · exact holds.sockets fd old

/-- A new client has the new socket to itself. -/
theorem Holds.register (holds : Holds start host) {newSocket : Int} {name : CppString}
    (free : IsFree start host newSocket) (registered : Registered after.server)
    (clients : after.server.clients = host.server.clients.insert name newSocket)
    (clientsfds : after.server.clientsfds = insert newSocket host.server.clientsfds)
    (sockets : after.sockets = insert newSocket host.sockets) : Holds start after := by
  obtain ⟨watched, apart⟩ := holds.insert_socket free clientsfds sockets
  have noClient := holds.not_clientFd free
  refine ⟨registered, watched, apart, ?_, ?_⟩
  · intro other fd found
    rw [clients, SortedMap.find?_insert] at found
    rw [sockets, Finset.mem_insert]
    split_ifs at found with here
    · exact .inl (Option.some_inj.mp found).symm
    · exact .inr (holds.client_socket other fd found)
  · intro one other fd first second
    rw [clients, SortedMap.find?_insert] at first second
    split_ifs at first second with isFirst isSecond isSecond
    · rw [isFirst, isSecond]
    · rw [Option.some_inj] at first
      exact absurd ⟨other, first ▸ second⟩ noClient
    · rw [Option.some_inj] at second
      exact absurd ⟨one, second ▸ first⟩ noClient
    · exact holds.client_unique one other fd first second

theorem Holds.turnAway (holds : Holds start host) {newSocket : Int}
    (free : IsFree start host newSocket) (registered : Registered after.server)
    (clients : after.server.clients = host.server.clients)
    (clientsfds : after.server.clientsfds = insert newSocket host.server.clientsfds)
    (sockets : after.sockets = insert newSocket host.sockets) : Holds start after := by
  obtain ⟨watched, apart⟩ := holds.insert_socket free clientsfds sockets
  refine ⟨registered, watched, apart, ?_, ?_⟩
  · intro name fd found
    rw [clients] at found
    rw [sockets]
    exact Finset.mem_insert_of_mem (holds.client_socket name fd found)
  · rw [clients]
    exact holds.client_unique

/-- The socket of the client that leaves was no other client's. -/
theorem Holds.leave (holds : Holds start host) {client : CppString} {closed : Int}
    (isClosed : host.server.clients.find? client = some closed)
    (registered : Registered after.server)
    (clients : after.server.clients = host.server.clients.erase client)
    (clientsfds : after.server.clientsfds = host.server.clientsfds.erase closed)
    (sockets : after.sockets = host.sockets.erase closed) : Holds start after := by
  obtain ⟨notSockfd, notStdin⟩ := holds.socket_ne (holds.client_socket client closed isClosed)
  refine ⟨registered, ?_, ?_, ?_, ?_⟩
  · intro fd
    rw [clientsfds, sockets, Finset.mem_erase, Finset.mem_erase, holds.clientsfds]
    constructor
    · tauto
    · rintro (rfl | rfl | ⟨other, isOpen⟩)
      · exact ⟨notSockfd.symm, .inl rfl⟩
      · exact ⟨notStdin.symm, .inr (.inl rfl)⟩
      · exact ⟨other, .inr (.inr isOpen)⟩
  · intro fd member
    rw [sockets] at member
    exact holds.sockets fd (Finset.mem_of_mem_erase member)
  · intro name fd found
    rw [clients, SortedMap.find?_erase] at found
    split_ifs at found with here
    rw [sockets, Finset.mem_erase]
    refine ⟨?_, holds.client_socket name fd found⟩
    rintro rfl
    exact here (holds.client_unique name client fd found isClosed)
  · intro one other fd first second
    rw [clients, SortedMap.find?_erase] at first second
    split_ifs at first second
    exact holds.client_unique one other fd first second

theorem Holds.change (holds : Holds start host) (accepts : Accepts start host event)
    (registered : Registered after.server) (change : HostChange host event after) :
    Holds start after := by
  cases change with
  | registers newSocket name asked fresh clients clientsfds sockets =>
      have free := isFree_of_connect accepts asked
      exact holds.register free registered clients clientsfds sockets
  | turnedAway newSocket newClientName asked stale clients clientsfds sockets =>
      have free := isFree_of_connect accepts asked
      exact holds.turnAway free registered clients clientsfds sockets
  | leaves client closed asked isClosed clients clientsfds sockets =>
      exact holds.leave isClosed registered clients clientsfds sockets
  | none other clients clientsfds sockets =>
      refine ⟨registered, ?_, ?_, ?_, ?_⟩
      · rw [clientsfds, sockets]
        exact holds.clientsfds
      · rw [sockets]
        exact holds.sockets
      · rw [clients, sockets]
        exact holds.client_socket
      · rw [clients]
        exact holds.client_unique

/-- A request keeps the invariant. -/
theorem holds_serveHost (holds : Holds start host) (accepts : Accepts start host event)
    (served : serveHost host event = some after) : Holds start after := by
  obtain ⟨-, attempts, isServed⟩ := serve_of_serveHost served
  exact holds.change accepts (registered_serve holds.registered isServed)
    (hostChange_of_serve holds.registered served)

end Invariant

/-! ## Stray descriptors -/

section Stray

variable {start : StartDescriptors} {host after : Host} {event : Request × List Bool}

/-- Every socket held open belongs to a client. -/
def SocketsRegistered (host : Host) : Prop := ∀ fd ∈ host.sockets, IsClientFd host fd

theorem Holds.noStray_iff (holds : Holds start host) :
    NoStray start host ↔ SocketsRegistered host := by
  refine ⟨And.right, fun registered => ⟨?_, registered⟩⟩
  intro fd watched
  rcases (holds.clientsfds fd).mp watched with isSockfd | isStdin | isOpen
  · exact .inl isSockfd
  · exact .inr (.inl isStdin)
  · exact .inr (.inr (registered fd isOpen))

theorem socketsRegistered_change (registered : SocketsRegistered host)
    (register : ConnectionsRegister host event) (change : HostChange host event after) :
    SocketsRegistered after := by
  intro fd member
  cases change with
  | registers newSocket name asked fresh clients clientsfds sockets =>
      rw [sockets, Finset.mem_insert] at member
      rw [IsClientFd, clients]
      rcases member with rfl | old
      · exact ⟨name, by rw [SortedMap.find?_insert, if_pos rfl]⟩
      · obtain ⟨other, found⟩ := registered fd old
        refine ⟨other, ?_⟩
        rw [SortedMap.find?_insert, if_neg]
        · exact found
        · rintro rfl
          obtain ⟨_, isName, noClient, -⟩ := fresh
          cases isName
          exact noClient (SortedMap.mem_keys.mpr ⟨fd, found⟩)
  | turnedAway newSocket newClientName asked stale clients clientsfds sockets =>
      exact absurd (register newSocket newClientName asked) stale
  | leaves client closed asked isClosed clients clientsfds sockets =>
      rw [sockets, Finset.mem_erase] at member
      obtain ⟨other, found⟩ := registered fd member.2
      refine ⟨other, ?_⟩
      rw [clients, SortedMap.find?_erase, if_neg]
      · exact found
      · rintro rfl
        exact member.1 (Option.some_inj.mp (found.symm.trans isClosed))
  | none other clients clientsfds sockets =>
      rw [sockets] at member
      rw [IsClientFd, clients]
      exact registered fd member

/-- The socket of a connection that is turned away stays open and is no
client's. -/
theorem not_socketsRegistered_change (holds : Holds start host)
    (accepts : Accepts start host event) (turnedAway : ¬ ConnectionsRegister host event)
    (change : HostChange host event after) : ¬ SocketsRegistered after := by
  simp only [ConnectionsRegister, not_forall] at turnedAway
  obtain ⟨newSocket, newClientName, asked, stale⟩ := turnedAway
  intro registered
  cases change with
  | registers _ name asked' fresh clients clientsfds sockets =>
      cases asked.symm.trans asked'
      exact stale fresh
  | turnedAway _ _ asked' stale' clients clientsfds sockets =>
      cases asked.symm.trans asked'
      obtain ⟨name, found⟩ := registered newSocket (sockets ▸ Finset.mem_insert_self _ _)
      rw [clients] at found
      exact holds.not_clientFd (isFree_of_connect accepts asked) ⟨name, found⟩
  | leaves client closed asked' => cases asked.symm.trans asked'
  | none other => exact other _ _ asked

/-- The invariant of a run in which every connection registers a client. -/
structure Tidy (start : StartDescriptors) (host : Host) : Prop where
  holds : Holds start host
  registered : SocketsRegistered host

theorem tidy_initial (start : StartDescriptors) : Tidy start (initialHost start) where
  holds := holds_initial start
  registered := fun _ member => absurd member (Finset.notMem_empty _)

theorem Tidy.next (tidy : Tidy start host) (register : ConnectionsRegister host event)
    (step : hostNext start host event = some after) : Tidy start after := by
  obtain ⟨accepts, served⟩ := guarded_eq_some.mp step
  have change := hostChange_of_serve tidy.holds.registered served
  exact ⟨holds_serveHost tidy.holds accepts served,
    socketsRegistered_change tidy.registered register change⟩

theorem Holds.stray (holds : Holds start host) (turnedAway : ¬ ConnectionsRegister host event)
    (step : hostNext start host event = some after) : ¬ NoStray start after := by
  obtain ⟨accepts, served⟩ := guarded_eq_some.mp step
  have change := hostChange_of_serve holds.registered served
  intro noStray
  exact not_socketsRegistered_change holds accepts turnedAway change noStray.2

end Stray

/-- **Stray descriptors.** In every state of a run the watched descriptors are
`sockfd`, the standard input and descriptors of clients, and every socket held
open is a client's, exactly if every connection of the run registers a
client. -/
theorem no_stray_iff (start : StartDescriptors) {events : List (Request × List Bool)} {host : Host}
    (run : exec (hostNext start) (initialHost start) events = some host) :
    HoldsAlong (hostNext start) (NoStray start) (initialHost start) events ↔
      StepsMeet (hostNext start) ConnectionsRegister (initialHost start) events := by
  refine exec_holds_iff (P := Tidy start) ?_ ?_ ?_ (tidy_initial start) run
  · exact fun host tidy => tidy.holds.noStray_iff.mpr tidy.registered
  · exact fun host event after tidy register step => tidy.next register step
  · exact fun host event after tidy turnedAway step => tidy.holds.stray turnedAway step

/-- Beside `sockfd` the three standard descriptors are open. -/
def standardStart : StartDescriptors where
  sockfd := 3
  inUse := {0, 1, 2, 3}
  sockfd_mem := by decide
  stdin_mem := by decide
  stdout_mem := by decide
  stderr_mem := by decide

theorem no_stray_iff_exit : HoldsAlong (hostNext standardStart) (NoStray standardStart)
    (initialHost standardStart)
    [(.connect 4 (some "bob".toList), []), (.exit "bob".toList, [])] := by
  refine (no_stray_iff standardStart rfl).mpr ?_
  refine (stepsMeet_cons rfl).mpr ⟨?_, (stepsMeet_cons rfl).mpr ⟨?_, stepsMeet_nil _ _⟩⟩
  · intro newSocket newClientName asked
    cases asked
    exact ⟨_, rfl, List.not_mem_nil, List.not_mem_nil⟩
  · intro newSocket newClientName asked
    cases asked

/-- **A connection with a taken name.** It is told so, and its socket stays open
and watched. -/
theorem taken_name_leaves_socket : ∃ host,
    exec (hostNext standardStart) (initialHost standardStart)
        [(.connect 4 (some "bob".toList), []), (.connect 5 (some "bob".toList), [])] =
      some host ∧ ¬ NoStray standardStart host := by
  refine ⟨_, rfl, ?_⟩
  rintro ⟨-, registered⟩
  obtain ⟨name, found⟩ := registered 5 (by decide +kernel)
  have entry := SortedMap.find?_eq_some.mp found
  cases entry with
  | tail _ rest => cases rest

/-! ## Clients that `select` cannot report -/

section Watched

variable {start : StartDescriptors} {host after : Host} {event : Request × List Bool}

theorem AcceptsLowest.accepts (lowest : AcceptsLowest start host event) :
    Accepts start host event := by
  rcases event with ⟨request, outcomes⟩
  cases request with
  | connect newSocket newClientName => exact lowest.1
  | createGroup | send | who | exit => trivial

theorem AcceptsLowest.le_of_isFree (lowest : AcceptsLowest start host event) {newSocket : Int}
    {newClientName : Option CppString} (asked : event.1 = .connect newSocket newClientName)
    {fd : Int} (free : IsFree start host fd) : newSocket ≤ fd := by
  rw [AcceptsLowest, asked] at lowest
  by_contra below
  have nonneg := free.1
  refine lowest.2 fd.toNat (by omega) ?_
  rw [Int.toNat_of_nonneg nonneg]
  exact free

/-- Every client's descriptor is below the bound. -/
def ClientsBelow (host : Host) : Prop := ∀ fd, IsClientFd host fd → fd < nfds

theorem Holds.client_watched (holds : Holds start host) {name : CppString} {fd : Int}
    (found : host.server.clients.find? name = some fd) : fd ∈ host.server.clientsfds :=
  (holds.clientsfds fd).mpr (.inr (.inr (holds.client_socket name fd found)))

/-- Where the descriptors of the clients come from after a request. -/
theorem HostChange.clientFd (change : HostChange host event after) {fd : Int}
    (isClient : IsClientFd after fd) :
    IsClientFd host fd ∨ ∃ newClientName, event.1 = .connect fd newClientName ∧
      NameIsFresh host newClientName := by
  obtain ⟨name, found⟩ := isClient
  cases change with
  | registers newSocket newName asked fresh clients clientsfds sockets =>
      rw [clients, SortedMap.find?_insert] at found
      split_ifs at found with here
      · rw [Option.some_inj] at found
        exact .inr ⟨some newName, found ▸ asked, fresh⟩
      · exact .inl ⟨name, found⟩
  | turnedAway newSocket newClientName asked stale clients clientsfds sockets =>
      exact .inl ⟨name, clients ▸ found⟩
  | leaves client closed asked isClosed clients clientsfds sockets =>
      rw [clients, SortedMap.find?_erase] at found
      split_ifs at found
      exact .inl ⟨name, found⟩
  | none other clients clientsfds sockets => exact .inl ⟨name, clients ▸ found⟩

theorem clientsBelow_change (below : ClientsBelow host) (lowest : AcceptsLowest start host event)
    (room : RoomBelow start host event) (change : HostChange host event after) :
    ClientsBelow after := by
  intro fd isClient
  rcases change.clientFd isClient with old | ⟨newClientName, asked, fresh⟩
  · exact below fd old
  · obtain ⟨free, isBelow, isFree⟩ := room fd newClientName asked fresh
    exact lt_of_le_of_lt (lowest.le_of_isFree asked isFree) isBelow

/-- `fd(client)`. -/
def Host.fdOf (host : Host) (name : CppString) : Int := (host.server.clients.find? name).getD 0

theorem Host.fdOf_eq {name : CppString} {fd : Int}
    (found : host.server.clients.find? name = some fd) : host.fdOf name = fd := by
  rw [fdOf, found, Option.getD_some]

/-- Of the descriptors below the bound the first three are in use, so at most
eight are clients'. -/
theorem Holds.length_le (holds : Holds start host) (below : ClientsBelow host) :
    host.server.clients.keys.length ≤ 8 := by
  have socket : ∀ name ∈ host.server.clients.keys, ∃ fd,
      host.server.clients.find? name = some fd ∧ fd ∈ host.sockets ∧ fd < nfds := by
    intro name member
    obtain ⟨fd, found⟩ := SortedMap.mem_keys.mp member
    exact ⟨fd, found, holds.client_socket name fd found, below fd ⟨name, found⟩⟩
  have nodup : (host.server.clients.keys.map host.fdOf).Nodup := by
    refine host.server.clients.keys_nodup.map_on ?_
    intro one isOne other isOther same
    obtain ⟨fd, found, -⟩ := socket one isOne
    obtain ⟨fd', found', -⟩ := socket other isOther
    rw [Host.fdOf_eq found, Host.fdOf_eq found'] at same
    exact holds.client_unique one other fd found (same ▸ found')
  have available : host.server.clients.keys.map host.fdOf ⊆ [3, 4, 5, 6, 7, 8, 9, 10] := by
    intro fd member
    obtain ⟨name, isName, rfl⟩ := List.mem_map.mp member
    obtain ⟨fd, found, isOpen, isBelow⟩ := socket name isName
    obtain ⟨nonneg, unused⟩ := holds.sockets fd isOpen
    have notStdin : fd ≠ 0 := fun same => unused (same ▸ start.stdin_mem)
    have notStdout : fd ≠ 1 := fun same => unused (same ▸ start.stdout_mem)
    have notStderr : fd ≠ 2 := fun same => unused (same ▸ start.stderr_mem)
    have bound : fd < 11 := isBelow
    rw [Host.fdOf_eq found]
    simp only [List.mem_cons, List.not_mem_nil]
    omega
  have length := (nodup.subperm available).length_le
  rw [List.length_map] at length
  exact length

theorem length_keys_insert {name : CppString} (fresh : name ∉ host.server.clients.keys)
    (fd : Int) : (host.server.clients.insert name fd).keys.length =
      host.server.clients.keys.length + 1 := by
  have perm : (host.server.clients.insert name fd).keys.Perm
      (name :: host.server.clients.keys) := by
    refine (List.perm_ext_iff_of_nodup (SortedMap.keys_nodup _) ?_).mpr ?_
    · exact List.nodup_cons.mpr ⟨fresh, SortedMap.keys_nodup _⟩
    · intro other
      rw [SortedMap.mem_keys_insert, List.mem_cons]
  rw [perm.length_eq, List.length_cons]

/-- A client registered while no descriptor below the bound is free is not
watched, although there are few clients. -/
theorem not_clientsWatched_change (holds : Holds start host) (below : ClientsBelow host)
    (accepts : Accepts start host event) (full : ¬ RoomBelow start host event)
    (change : HostChange host event after) : ¬ ClientsWatched after := by
  simp only [RoomBelow, not_forall] at full
  obtain ⟨newSocket, newClientName, asked, fresh, none⟩ := full
  intro watched
  cases change with
  | registers _ name asked' fresh' clients clientsfds sockets =>
      cases asked.symm.trans asked'
      obtain ⟨_, isName, noClient, -⟩ := fresh
      cases isName
      have few := holds.length_le below
      rw [ClientsWatched, clients, length_keys_insert noClient, maxClients] at watched
      have isBelow := (watched (by omega) name newSocket
        (by rw [SortedMap.find?_insert, if_pos rfl])).2
      exact none ⟨newSocket, isBelow, isFree_of_connect accepts asked⟩
  | turnedAway _ _ asked' stale =>
      cases asked.symm.trans asked'
      exact stale fresh
  | leaves client closed asked' => cases asked.symm.trans asked'
  | none other => exact other _ _ asked

/-- The invariant of a run with room below the bound for every client. -/
structure Roomy (start : StartDescriptors) (host : Host) : Prop where
  holds : Holds start host
  below : ClientsBelow host

theorem roomy_initial (start : StartDescriptors) : Roomy start (initialHost start) where
  holds := holds_initial start
  below := by
    intro fd isClient
    obtain ⟨name, found⟩ := isClient
    exact absurd found (by simp [initialHost, initialServer])

theorem Roomy.clientsWatched (roomy : Roomy start host) : ClientsWatched host := by
  intro _ name fd found
  exact ⟨roomy.holds.client_watched found, roomy.below fd ⟨name, found⟩⟩

theorem Roomy.next (roomy : Roomy start host) (room : RoomBelow start host event)
    (step : lowestNext start host event = some after) : Roomy start after := by
  obtain ⟨lowest, served⟩ := guarded_eq_some.mp step
  have change := hostChange_of_serve roomy.holds.registered served
  exact ⟨holds_serveHost roomy.holds lowest.accepts served,
    clientsBelow_change roomy.below lowest room change⟩

theorem Roomy.unwatched (roomy : Roomy start host) (full : ¬ RoomBelow start host event)
    (step : lowestNext start host event = some after) : ¬ ClientsWatched after := by
  obtain ⟨lowest, served⟩ := guarded_eq_some.mp step
  have change := hostChange_of_serve roomy.holds.registered served
  exact not_clientsWatched_change roomy.holds roomy.below lowest.accepts full change

end Watched

/-- **Watched clients.** With the lowest free descriptor for each connection,
every client is watched and below the bound in every state of a run with at most
`MAX_CLIENTS` clients exactly if a descriptor below the bound is free whenever a
client is registered. -/
theorem clients_watched_iff (start : StartDescriptors) {events : List (Request × List Bool)}
    {host : Host} (run : exec (lowestNext start) (initialHost start) events = some host) :
    HoldsAlong (lowestNext start) ClientsWatched (initialHost start) events ↔
      StepsMeet (lowestNext start) (RoomBelow start) (initialHost start) events := by
  refine exec_holds_iff (P := Roomy start) ?_ ?_ ?_ (roomy_initial start) run
  · exact fun host roomy => roomy.clientsWatched
  · exact fun host event after roomy room step => roomy.next room step
  · exact fun host event after roomy full step => roomy.unwatched full step

theorem clients_watched_iff_two :
    HoldsAlong (lowestNext standardStart) ClientsWatched (initialHost standardStart)
      [(.connect 4 (some "bob".toList), []), (.connect 5 none, [])] := by
  refine (clients_watched_iff standardStart rfl).mpr ?_
  refine (stepsMeet_cons rfl).mpr ⟨?_, (stepsMeet_cons rfl).mpr ⟨?_, stepsMeet_nil _ _⟩⟩
  · rintro newSocket newClientName - -
    exact ⟨4, by decide, by decide⟩
  · rintro newSocket newClientName asked ⟨name, isName, -⟩
    cases asked
    cases isName

/-- Connections of eight clients. -/
def eightConnections : List (Request × List Bool) :=
  (List.range 8).map fun k : Nat => (.connect (k + 4) (some (List.replicate (k + 1) 'a')), [])

/-- **The eighth client.** It gets descriptor 11, which `select` does not look
at. -/
theorem eighth_client_not_watched : ∃ host,
    exec (lowestNext standardStart) (initialHost standardStart) eightConnections = some host ∧
      ¬ ClientsWatched host := by
  refine ⟨_, rfl, ?_⟩
  intro watched
  have eighth := (watched (by decide +kernel) (List.replicate 8 'a') 11 (by decide +kernel)).2
  exact absurd eighth (by decide)

end Os2018.Whatsapp
