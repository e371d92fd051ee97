import Os2018.Library.RangeFor
import Os2018.Whatsapp.Frames

/-!
# The loops over the maps of the server

In each pass `main` reads a line from standard input if there is one, and
otherwise loops over `clients` and handles a request of every client that `select`
reports. An exit erases the client's entry from the map, and the loop stands on
that entry: its iterator cannot be advanced. In the same way the loop of
`clientExit` over `groups` erases the entry it stands on when the last member of a
group leaves.

Both loops are run here as loops over maps that their bodies change. A pass with
no line handles all ready clients exactly if each request is parsed, is not an
exit, and makes `send_data` copy nothing longer than its buffer; the loop of
`clientExit` ends regularly exactly if no group is left without members
(`iterations_survive_iff`). A new connection is registered before all this, which
leads to a reachable state as well. A call of `write` returns, if only with an
error: `SIGPIPE` is left out.
-/

set_option autoImplicit false

namespace Os2018.Whatsapp

open Transition SortedMap

/-! ## The loop of `clientExit` -/

/-- The body of the loop over `groups`. -/
def leaveGroup (client : CppString) (groupName : CppString)
    (groups : SortedMap CppString (List CppString)) :
    Except Empty (SortedMap CppString (List CppString)) :=
  match groups.find? groupName with
  | none => .ok groups
  | some group =>
      let group := group.filter (· ≠ client)
      if group.isEmpty then .ok (groups.erase groupName) else .ok (groups.insert groupName group)

/-- The groups after `clientExit`, when its loop ends regularly. -/
def leaveGroups (server : WhatsappServer) (client : CppString) :
    Except (LoopError Empty) (SortedMap CppString (List CppString)) :=
  rangeFor id (leaveGroup client) server.groups

/-! ## A pass of `main` -/

/-- The length of `buf` in `send_data`. -/
def sendBuffer : Nat := waMaxInput + 1

/-- A request whose handling goes wrong. -/
inductive RequestError where
  | parse (error : ParseError)
  /-- `send_data` copies a string that is longer than its buffer. -/
  | overrun
  /-- In the loop of `clientExit`. -/
  | groups

/-- The server during a pass, the calls of `send_data`, and the clients handled
so far. -/
structure Pass where
  server : WhatsappServer
  wire : Wire
  handled : List CppString

/-- The command asks for an exit. -/
def isExit (command : CppString) : Bool :=
  match parseCommand command with
  | .ok parsed => parsed.commandT = .exit
  | .error _ => false

/-- `handleClientRequest`, with the buffer of `send_data` and the loop of
`clientExit` as it runs. -/
def handleReady (server : WhatsappServer) (client : Client) (command : Option CppString)
    (outcomes : List Bool) : Except RequestError (WhatsappServer × Wire) :=
  match handleClientRequest server client command ⟨[], outcomes⟩ with
  | .error error => .error (.parse error)
  | .ok result =>
      if result.2.attempts.any fun attempt => sendBuffer < attempt.frame.length then
        .error .overrun
      else if command.any isExit then
        match leaveGroups server client.1 with
        | .ok _ => .ok result
        | .error _ => .error .groups
      else .ok result

/-- The body of the loop over `clients`. A descriptor that `select` reports comes
with the command that `read_data` returns, if it does not fail. -/
def handleClient (ready : Int → Option (Option CppString)) (clientName : CppString)
    (pass : Pass) : Except RequestError Pass :=
  match pass.server.clients.find? clientName with
  | none => .ok pass
  | some fd =>
      match ready fd with
      | none => .ok pass
      | some command =>
          (handleReady pass.server (clientName, fd) command pass.wire.outcomes).map fun result =>
            ⟨result.1, ⟨pass.wire.attempts ++ result.2.attempts, result.2.outcomes⟩,
              pass.handled ++ [clientName]⟩

/-- The loop of `main` over `clients`. -/
def handleClients (server : WhatsappServer) (ready : Int → Option (Option CppString))
    (wire : Wire) : Except (LoopError RequestError) Pass :=
  rangeFor (fun pass => pass.server.clients) (handleClient ready) ⟨server, wire, []⟩

/-- `EXIT` ends the process once the clients are told; other lines are ignored. -/
def serverStdInput (server : WhatsappServer) (serverStdin : CppString) (wire : Wire) : Wire :=
  if serverStdin = "EXIT".toList then serverExit server wire else wire

/-- What `main` does after `select`, and after the new connection if there is one.
The line is absent when `select` does not report standard input. -/
def mainPass (server : WhatsappServer) (serverStdin : Option CppString)
    (ready : Int → Option (Option CppString)) (wire : Wire) :
    Except (LoopError RequestError) Pass :=
  match serverStdin with
  | some serverStdin => .ok ⟨server, serverStdInput server serverStdin wire, []⟩
  | none => handleClients server ready wire

/-! ## Statement -/

/-- `select` reports the descriptor of the client. -/
def isReady (server : WhatsappServer) (ready : Int → Option (Option CppString))
    (clientName : CppString) : Bool :=
  (server.clients.find? clientName).any fun fd => (ready fd).isSome

/-- The pass ends regularly and has handled every client that was registered and
ready. -/
def PassSurvives (server : WhatsappServer) (serverStdin : Option CppString)
    (ready : Int → Option (Option CppString)) (wire : Wire) : Prop :=
  ∃ pass, mainPass server serverStdin ready wire = .ok pass ∧
    pass.handled = server.clients.keys.filter (isReady server ready)

/-- The command is parsed and is not an exit, and what is put together for it fits
the buffer of `send_data`, or is not reached because the first marker fails. -/
def Harmless (server : WhatsappServer) (client command : CppString) (outcomes : List Bool) :
    Prop :=
  ∃ parsed, parseCommand command = .ok parsed ∧ parsed.commandT ≠ .exit ∧
    (LengthsWithin sendBuffer server client command parsed ∨
      parsed.commandT = .send ∧ outcomes.headD true = false)

/-- The client's request is harmless, if there is one when the loop has come to
the client. -/
def Stays (ready : Int → Option (Option CppString)) (pass : Pass) (clientName : CppString) :
    Prop :=
  ∀ fd command, pass.server.clients.find? clientName = some fd → ready fd = some (some command) →
    Harmless pass.server clientName command pass.wire.outcomes

/-! ## Groups -/

section Groups

variable {server : WhatsappServer} {client : CppString}

/-- Every group is as it was or has lost the client; those visited have. -/
def GroupsLeft (original : SortedMap CppString (List CppString)) (client : CppString)
    (visited : List CppString) (groups : SortedMap CppString (List CppString)) : Prop :=
  ∀ groupName, groups.find? groupName =
    (original.find? groupName).map fun group =>
      if groupName ∈ visited then group.filter (· ≠ client) else group

/-- A member other than the client stays. -/
def KeepsMember (original : SortedMap CppString (List CppString)) (client groupName : CppString) :
    Prop :=
  ∀ group, original.find? groupName = some group → ∃ member ∈ group, member ≠ client

theorem filter_eq_nil_iff_all {group : List CppString} :
    group.filter (· ≠ client) = [] ↔ ¬ ∃ member ∈ group, member ≠ client := by
  simp [List.filter_eq_nil_iff]

theorem GroupsLeft.found {original groups : SortedMap CppString (List CppString)}
    {before after : List CppString} {groupName : CppString}
    (left : GroupsLeft original client before groups)
    (split : original.keys = before ++ groupName :: after) :
    ∃ group, original.find? groupName = some group ∧ groups.find? groupName = some group := by
  have member : groupName ∈ original.keys := by
    rw [split]
    simp
  have unvisited : groupName ∉ before := by
    have nodup := original.keys_nodup
    rw [split] at nodup
    intro visited
    exact (List.nodup_append.mp nodup).2.2 groupName visited groupName List.mem_cons_self rfl
  obtain ⟨group, found⟩ := SortedMap.mem_keys.mp member
  refine ⟨group, found, ?_⟩
  rw [left, found, Option.map_some, if_neg unvisited]

theorem leaveGroup_keeps (original : SortedMap CppString (List CppString)) (client : CppString) :
    Keeps id (leaveGroup client) original.keys (fun _ => KeepsMember original client)
      (GroupsLeft original client) := by
  intro before groupName after groups split others left same
  obtain ⟨group, isOriginal, found⟩ := left.found split
  have nonempty : ¬ (group.filter (· ≠ client)).isEmpty = true := by
    rw [List.isEmpty_iff, filter_eq_nil_iff_all, not_not]
    exact others group isOriginal
  refine ⟨groups.insert groupName (group.filter (· ≠ client)), ?_, ?_, ?_⟩
  · rw [leaveGroup, found]
    dsimp only
    rw [if_neg nonempty]
  · intro other
    rw [SortedMap.find?_insert, left]
    by_cases here : other = groupName
    · rw [if_pos here, here, isOriginal, Option.map_some, if_pos (by simp)]
    · have visited : other ∈ before ++ [groupName] ↔ other ∈ before := by simp [here]
      rw [if_neg here]
      simp only [visited]
  · have member : groupName ∈ groups.keys := SortedMap.mem_keys.mpr ⟨group, found⟩
    exact (SortedMap.keys_insert_of_mem member).trans same

theorem leaveGroup_breaks (original : SortedMap CppString (List CppString)) (client : CppString) :
    Breaks id (leaveGroup client) original.keys (fun _ => KeepsMember original client)
      (GroupsLeft original client) := by
  intro before groupName after groups groups' split alone left same ran
  obtain ⟨group, isOriginal, found⟩ := left.found split
  have nobody : (group.filter (· ≠ client)).isEmpty = true := by
    rw [List.isEmpty_iff, filter_eq_nil_iff_all]
    intro other
    apply alone
    intro group' isGroup
    cases isOriginal.symm.trans isGroup
    exact other
  rw [leaveGroup, found] at ran
  dsimp only at ran
  rw [if_pos nobody] at ran
  cases ran
  intro member
  exact (SortedMap.mem_keys_erase.mp member).1 rfl

theorem groupsLeft_nil (original : SortedMap CppString (List CppString)) (client : CppString) :
    GroupsLeft original client [] original := by
  intro groupName
  simp

/-- The loop of `clientExit` ends regularly exactly if every group keeps a
member. -/
theorem leaveGroups_ok_iff (server : WhatsappServer) (client : CppString) :
    (∃ groups, leaveGroups server client = .ok groups) ↔
      ∀ groupName group, server.groups.find? groupName = some group →
        ∃ member ∈ group, member ≠ client := by
  have keeps := leaveGroup_keeps server.groups client
  have start := groupsLeft_nil server.groups client
  refine (rangeFor_ok_iff keeps (leaveGroup_breaks server.groups client) start).trans ?_
  refine (stepsMeet_forall_iff keeps [] rfl start rfl).trans ?_
  constructor
  · intro keeps groupName group found
    exact keeps groupName (SortedMap.mem_keys.mpr ⟨group, found⟩) group found
  · exact fun keeps groupName _ group found => keeps groupName group found

/-- When it ends regularly it has done what `clientExit` is read as doing. -/
theorem leaveGroups_eq {groups : SortedMap CppString (List CppString)} {fd : Int}
    (ended : leaveGroups server client = .ok groups) (groupName : CppString) :
    groups.find? groupName = (clientExit server (client, fd)).groups.find? groupName := by
  have keeps := (leaveGroups_ok_iff server client).mp ⟨groups, ended⟩
  have meets : StepsMeet (round (leaveGroup client)) (fun _ => KeepsMember server.groups client)
      server.groups server.groups.keys :=
    stepsMeet_of_forall (fun groupName _ _ group found => keeps groupName group found) _
  obtain ⟨groups', ended', left, -⟩ := rangeFor_invariant (leaveGroup_keeps server.groups client)
    meets (groupsLeft_nil server.groups client)
  cases ended.symm.trans ended'
  change GroupsLeft server.groups client server.groups.keys groups at left
  rw [left, clientExit, SortedMap.find?_filterMap]
  cases found : server.groups.find? groupName with
  | none => rfl
  | some group =>
      have visited : groupName ∈ server.groups.keys := SortedMap.mem_keys.mpr ⟨group, found⟩
      have nonempty : ¬ (group.filter (· ≠ client)).isEmpty = true := by
        rw [List.isEmpty_iff, filter_eq_nil_iff_all, not_not]
        exact keeps groupName group found
      rw [Option.map_some, Option.bind_some, if_pos visited]
      dsimp only
      rw [if_neg nonempty]

end Groups

/-! ## Clients -/

section Clients

variable {server : WhatsappServer} {ready : Int → Option (Option CppString)}
  {clientName : CppString} {fd : Int} {wire : Wire}

theorem notOverrun_iff {wire : Wire} :
    (¬ (wire.attempts.any fun attempt => sendBuffer < attempt.frame.length) = true) ↔
      ∀ attempt ∈ wire.attempts, attempt.frame.length ≤ sendBuffer := by
  simp [List.any_eq_true, decide_eq_true_eq]

/-- A harmless request leaves the map of the clients alone. -/
theorem handleReady_stays (registered : Registered server)
    (connected : server.clients.find? clientName = some fd) {command : Option CppString}
    {outcomes : List Bool}
    (harmless : ∀ text, command = some text → Harmless server clientName text outcomes) :
    ∃ result, handleReady server (clientName, fd) command outcomes = .ok result ∧
      Registered result.1 ∧ result.1.clients = server.clients := by
  rcases command with - | text
  · exact ⟨_, rfl, registered, rfl⟩
  obtain ⟨parsed, isParsed, notExit, lengths⟩ := harmless text rfl
  have goesOn : ¬ (some text).any isExit = true := by simp [isExit, isParsed, notExit]
  have fits := (framesWithin_iff registered (Nat.le_succ waMaxInput) connected isParsed
    outcomes).mpr lengths _ _ (handle_parsed isParsed server (clientName, fd) ⟨[], outcomes⟩)
  rw [handleReady, handle_parsed isParsed]
  dsimp only
  rw [if_neg (notOverrun_iff.mpr fits), if_neg goesOn]
  refine ⟨_, rfl, ?_⟩
  cases type : parsed.commandT with
  | createGroup =>
      exact ⟨registered_createGroup registered _ _ _ _, createGroup_clients _ _ _ _ _⟩
  | send =>
      dsimp only
      rw [send_server registered]
      exact ⟨registered, rfl⟩
  | who => exact ⟨registered.of_perm (sortNames_perm _), rfl⟩
  | exit => exact absurd type notExit
  | invalid => exact ⟨registered, rfl⟩

/-- A request that the server survives, other than those above, removes the
client. -/
theorem handleReady_leaves (registered : Registered server)
    (connected : server.clients.find? clientName = some fd) {text : CppString}
    {outcomes : List Bool} (harmful : ¬ Harmless server clientName text outcomes)
    {result : WhatsappServer × Wire}
    (handled : handleReady server (clientName, fd) (some text) outcomes = .ok result) :
    clientName ∉ result.1.clients.keys := by
  rw [handleReady] at handled
  rcases answered : handleClientRequest server (clientName, fd) (some text) ⟨[], outcomes⟩ with
    error | answer
  · rw [answered] at handled
    cases handled
  rcases isParsed : parseCommand text with error | parsed
  · simp only [handleClientRequest, isParsed] at answered
    cases answered
  -- When nothing overruns the buffer, the request must have been an exit.
  have erased : (∀ attempt ∈ answer.2.attempts, attempt.frame.length ≤ sendBuffer) →
      clientName ∉ answer.1.clients.keys := by
    intro fits
    have isExit : parsed.commandT = .exit := by
      by_contra other
      refine harmful ⟨parsed, isParsed, other, ?_⟩
      refine (framesWithin_iff registered (Nat.le_succ waMaxInput) connected isParsed outcomes).mp
        fun after wire result => ?_
      cases answered.symm.trans result
      exact fits
    rw [handle_parsed isParsed, isExit] at answered
    cases answered
    exact fun member => (SortedMap.mem_keys_erase.mp member).1 rfl
  rw [answered] at handled
  dsimp only at handled
  split_ifs at handled with overrun exits
  · split at handled
    · cases handled
      exact erased (notOverrun_iff.mp overrun)
    · cases handled
  · cases handled
    exact erased (notOverrun_iff.mp overrun)

/-- What holds in the loop of `main`: the map of the clients is as it was at the
start, and those visited have been handled if they were ready. -/
structure Passing (server : WhatsappServer) (ready : Int → Option (Option CppString))
    (visited : List CppString) (pass : Pass) : Prop where
  registered : Registered pass.server
  clients : pass.server.clients = server.clients
  handled : pass.handled = visited.filter (isReady server ready)

theorem handleClient_keeps (server : WhatsappServer) (ready : Int → Option (Option CppString)) :
    Keeps (fun pass : Pass => pass.server.clients) (handleClient ready) server.clients.keys
      (Stays ready) (Passing server ready) := by
  intro before clientName after pass split stays passing same
  have member : clientName ∈ server.clients.keys := by
    rw [split]
    simp
  obtain ⟨fd, found⟩ := SortedMap.mem_keys.mp member
  have connected : pass.server.clients.find? clientName = some fd := by
    rw [passing.clients]
    exact found
  rw [handleClient, connected]
  dsimp only
  cases request : ready fd with
  | none =>
      have unready : isReady server ready clientName = false := by
        simp [isReady, found, request]
      refine ⟨pass, rfl, ?_, same⟩
      exact { passing with handled := by rw [List.filter_append, passing.handled]; simp [unready] }
  | some command =>
      have isReady : isReady server ready clientName = true := by
        simp [isReady, found, request]
      have harmless : ∀ text, command = some text →
          Harmless pass.server clientName text pass.wire.outcomes := by
        rintro text rfl
        exact stays fd text connected request
      obtain ⟨result, handled, registered, clients⟩ :=
        handleReady_stays passing.registered connected harmless
      dsimp only
      rw [handled]
      refine ⟨_, rfl, ⟨registered, clients.trans passing.clients, ?_⟩, ?_⟩
      · rw [List.filter_append, passing.handled]
        simp [isReady]
      · dsimp only
        rw [clients, passing.clients]

theorem handleClient_breaks (server : WhatsappServer) (ready : Int → Option (Option CppString)) :
    Breaks (fun pass : Pass => pass.server.clients) (handleClient ready) server.clients.keys
      (Stays ready) (Passing server ready) := by
  intro before clientName after pass pass' split leaves passing same ran
  simp only [Stays, not_forall] at leaves
  obtain ⟨fd, text, connected, request, harmful⟩ := leaves
  rw [handleClient, connected] at ran
  dsimp only at ran
  rw [request] at ran
  dsimp only at ran
  rcases handled : handleReady pass.server (clientName, fd) (some text) pass.wire.outcomes with
    error | result
  · rw [handled] at ran
    cases ran
  · rw [handled] at ran
    cases ran
    exact handleReady_leaves passing.registered connected harmful handled

theorem passing_nil (registered : Registered server) (ready : Int → Option (Option CppString))
    (wire : Wire) : Passing server ready [] ⟨server, wire, []⟩ :=
  ⟨registered, rfl, rfl⟩

/-- A pass over the clients survives exactly if every ready client stays. -/
theorem passSurvives_iff (registered : Registered server)
    (ready : Int → Option (Option CppString)) (wire : Wire) :
    PassSurvives server none ready wire ↔
      StepsMeet (round (handleClient ready)) (Stays ready) ⟨server, wire, []⟩
        server.clients.keys := by
  have keeps := handleClient_keeps server ready
  have breaks := handleClient_breaks server ready
  have start := passing_nil registered ready wire
  constructor
  · rintro ⟨pass, ended, -⟩
    have regular : handleClients server ready wire = .ok pass := ended
    exact (rangeFor_ok_iff (s := (⟨server, wire, []⟩ : Pass)) keeps breaks start).mp ⟨pass, regular⟩
  · intro stay
    obtain ⟨pass, ended, passing, -⟩ :=
      rangeFor_invariant (s := (⟨server, wire, []⟩ : Pass)) keeps stay start
    exact ⟨pass, ended, passing.handled⟩

/-- A line typed at the server keeps the ready clients waiting. -/
theorem passSurvives_line_iff (serverStdin : CppString) :
    PassSurvives server (some serverStdin) ready wire ↔
      ∀ clientName ∈ server.clients.keys, ¬ isReady server ready clientName = true := by
  rw [← List.filter_eq_nil_iff, eq_comm]
  constructor
  · rintro ⟨pass, ended, handled⟩
    cases ended
    exact handled
  · exact fun nobody => ⟨_, rfl, nobody⟩

end Clients

/-- **Iterations and removals.** In every reachable server state: a pass in which
a line is typed at the server ends regularly and handles every ready client exactly
if no client is ready; any other does so exactly if every request, when its turn
comes, is parsed, is not an exit and fits the buffer of `send_data`. And the loop
of `clientExit` over the groups ends regularly exactly if every group keeps a
member. -/
theorem iterations_survive_iff {clientsfds : Finset Int} {server : WhatsappServer}
    (reachable : (registry clientsfds).Reachable server) :
    (∀ serverStdin ready wire, PassSurvives server (some serverStdin) ready wire ↔
      ∀ clientName ∈ server.clients.keys, ¬ isReady server ready clientName = true) ∧
    (∀ ready wire, PassSurvives server none ready wire ↔
      StepsMeet (round (handleClient ready)) (Stays ready) ⟨server, wire, []⟩
        server.clients.keys) ∧
    ∀ client fd, server.clients.find? client = some fd →
      ((∃ groups, leaveGroups server client = .ok groups) ↔
        ∀ groupName group, server.groups.find? groupName = some group →
          ∃ member ∈ group, member ≠ client) := by
  refine ⟨?_, ?_, fun client _ _ => leaveGroups_ok_iff server client⟩
  · exact fun serverStdin ready wire => passSurvives_line_iff serverStdin
  · exact passSurvives_iff (registered_of_reachable reachable)

/-- Both clients ask for the same group. -/
theorem iterations_survive_iff_createGroup : ∃ server,
    exec registryNext (initialServer ∅) twoClients = some server ∧
      PassSurvives server none (fun _ => some (some "create_group g bob".toList)) ⟨[], []⟩ := by
  refine ⟨_, rfl, ?_⟩
  have run : exec registryNext (initialServer ∅) twoClients = some _ := rfl
  have isParsed : parseCommand "create_group g bob".toList =
      .ok { commandT := .createGroup, name := "g".toList, clients := ["bob".toList] } := by
    decide +kernel
  refine ((iterations_survive_iff (exec_reachable (.init rfl) run)).2.1 _ _).mpr ?_
  refine stepsMeet_of_forall (fun clientName _ pass fd command _ request => ?_) _
  cases request
  exact ⟨_, isParsed, by simp, .inl trivial⟩

/-- **An exit in the loop of `main`.** Bob exits while christopher waits to be
handled: the entry on which the loop stands is erased. -/
theorem exit_erases_own_entry : ∃ server,
    exec registryNext (initialServer ∅) twoClients = some server ∧
      ¬ PassSurvives server none
        (fun fd => some (some (if fd = 5 then "exit" else "who").toList)) ⟨[], []⟩ := by
  refine ⟨_, rfl, ?_⟩
  rintro ⟨pass, ended, -⟩
  cases ended

end Os2018.Whatsapp
