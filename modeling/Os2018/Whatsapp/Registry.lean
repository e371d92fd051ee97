import Os2018.Library.Transition
import Os2018.Whatsapp.Server

/-!
# The registry of the server

The names of the connected clients are kept twice, as the keys of `clients` and
as `clientsList`; the groups are keyed by names of their own and hold names of
clients. `Registered` states how the three collections fit together. It holds
before the first connection and every request keeps it, whatever the outcomes
of the `send_data` calls are (`registered_of_reachable`).

A lookup `clients[name]` adds an entry when there is none. Under the invariant
every name that `send` looks up is registered, so `send` changes nothing
(`send_server`).
-/

set_option autoImplicit false

namespace Os2018.Whatsapp

open Transition

/-! ## Requests -/

/-- What the server is asked to do: a new connection with the name read from
it, or a request of a connected client. -/
inductive Request where
  | connect (newSocket : Int) (newClientName : Option CppString)
  | createGroup (client groupName : CppString) (group : List CppString)
  | send (client sendTo message : CppString)
  | who (client : CppString)
  | exit (client : CppString)

/-- The server and the `send_data` calls after a request, given the outcomes of
these calls. A name that is not registered makes no requests. -/
def serve (server : WhatsappServer) (request : Request) (outcomes : List Bool) :
    Option (WhatsappServer × List Attempt) :=
  let wire : Wire := ⟨[], outcomes⟩
  let finish (result : WhatsappServer × Wire) := (result.1, result.2.attempts)
  match request with
  | .connect newSocket newClientName =>
      some (finish (connectNewClient server newSocket newClientName wire))
  | .createGroup client groupName group => (server.clients.find? client).map fun fd =>
      finish (Whatsapp.createGroup server (client, fd) groupName group wire)
  | .send client sendTo message => (server.clients.find? client).map fun fd =>
      finish (Whatsapp.send server (client, fd) sendTo message wire)
  | .who client => (server.clients.find? client).map fun fd =>
      finish (Whatsapp.who server (client, fd) wire)
  | .exit client => (server.clients.find? client).map fun fd =>
      (clientExit server (client, fd), [])

def registryNext (server : WhatsappServer) (event : Request × List Bool) :
    Option WhatsappServer :=
  (serve server event.1 event.2).map Prod.fst

/-- The runs of the server: any requests, with any outcomes of the calls of
`send_data`. -/
def registry (clientsfds : Finset Int) : System WhatsappServer (Request × List Bool) :=
  .ofFunction registryNext (initialServer clientsfds)

/-- A command of a connected client that the server survives is a request of
that client, or is ignored. -/
theorem handleClientRequest_serve {server after : WhatsappServer} {client : CppString} {fd : Int}
    (connected : server.clients.find? client = some fd) {command : Option CppString}
    {outcomes : List Bool} {wire : Wire}
    (handled : handleClientRequest server (client, fd) command ⟨[], outcomes⟩ = .ok (after, wire)) :
    after = server ∨ ∃ request, serve server request outcomes = some (after, wire.attempts) := by
  rcases command with - | command
  · cases handled
    exact .inl rfl
  simp only [handleClientRequest] at handled
  rcases parsed : parseCommand command with error | ⟨commandT, name, message, clients⟩
  · rw [parsed] at handled
    cases handled
  rw [parsed] at handled
  cases commandT with
  | createGroup =>
      refine .inr ⟨.createGroup client name clients, ?_⟩
      have result : Whatsapp.createGroup server (client, fd) name clients ⟨[], outcomes⟩ =
          (after, wire) := Except.ok.inj handled
      simp only [serve, connected, Option.map_some, result]
  | send =>
      refine .inr ⟨.send client name message, ?_⟩
      have result : Whatsapp.send server (client, fd) name message ⟨[], outcomes⟩ =
          (after, wire) := Except.ok.inj handled
      simp only [serve, connected, Option.map_some, result]
  | who =>
      refine .inr ⟨.who client, ?_⟩
      have result : Whatsapp.who server (client, fd) ⟨[], outcomes⟩ =
          (after, wire) := Except.ok.inj handled
      simp only [serve, connected, Option.map_some, result]
  | exit =>
      refine .inr ⟨.exit client, ?_⟩
      cases handled
      simp only [serve, connected, Option.map_some]
  | invalid =>
      cases handled
      exact .inl rfl

/-! ## The invariant -/

/-- The three collections fit together. -/
structure Registered (server : WhatsappServer) : Prop where
  clientsList_perm : server.clientsList.Perm server.clients.keys
  names_apart : ∀ name ∈ server.clients.keys, name ∉ server.groups.keys
  group_nonempty : ∀ groupName group, server.groups.find? groupName = some group → group ≠ []
  group_nodup : ∀ groupName group, server.groups.find? groupName = some group → group.Nodup
  group_connected : ∀ groupName group, server.groups.find? groupName = some group →
    ∀ member ∈ group, member ∈ server.clients.keys

theorem Registered.clientsList_nodup {server : WhatsappServer} (registered : Registered server) :
    server.clientsList.Nodup :=
  registered.clientsList_perm.nodup_iff.mpr server.clients.keys_nodup

theorem Registered.mem_clientsList {server : WhatsappServer} (registered : Registered server)
    {name : CppString} : name ∈ server.clientsList ↔ name ∈ server.clients.keys :=
  registered.clientsList_perm.mem_iff

theorem registered_initial (clientsfds : Finset Int) : Registered (initialServer clientsfds) where
  clientsList_perm := .nil
  names_apart := fun _ member => absurd member List.not_mem_nil
  group_nonempty := fun _ _ found => absurd found (by simp [initialServer])
  group_nodup := fun _ _ found => absurd found (by simp [initialServer])
  group_connected := fun _ _ found => absurd found (by simp [initialServer])

/-- The order of `clientsList` does not matter. -/
theorem Registered.of_perm {server : WhatsappServer} (registered : Registered server)
    {clientsList : List CppString} (perm : clientsList.Perm server.clientsList) :
    Registered { server with clientsList } :=
  { registered with clientsList_perm := perm.trans registered.clientsList_perm }

/-! ## Sorting, duplicates and inclusion -/

theorem sortNames_perm (names : List CppString) : (sortNames names).Perm names :=
  List.perm_insertionSort _ names

theorem sortNames_sorted (names : List CppString) : (sortNames names).Pairwise (· ≤ ·) :=
  List.pairwise_insertionSort _ names

theorem mem_uniqueAfter {name kept : CppString} {names : List CppString} :
    name ∈ uniqueAfter kept names ↔ name ∈ kept :: names := by
  induction names generalizing kept with
  | nil => rfl
  | cons next names ih =>
      rw [uniqueAfter]
      split_ifs with same
      · rw [ih, same]
        simp
      · rw [List.mem_cons, ih, List.mem_cons (b := kept)]

theorem uniqueAfter_sorted {kept : CppString} {names : List CppString}
    (sorted : (kept :: names).Pairwise (· ≤ ·)) :
    (uniqueAfter kept names).Pairwise (· < ·) := by
  induction names generalizing kept with
  | nil => exact List.pairwise_singleton _ _
  | cons next names ih =>
      obtain ⟨above, tail⟩ := List.pairwise_cons.mp sorted
      rw [uniqueAfter]
      split_ifs with same
      · exact ih (same ▸ tail)
      · refine List.pairwise_cons.mpr ⟨?_, ih tail⟩
        intro name member
        have less : kept < next := lt_of_le_of_ne (above next List.mem_cons_self) same
        rcases List.mem_cons.mp (mem_uniqueAfter.mp member) with rfl | later
        · exact less
        · exact lt_of_lt_of_le less ((List.pairwise_cons.mp tail).1 name later)

/-- Without equal neighbours a sorted list is strictly sorted. -/
theorem unique_sorted {names : List CppString} (sorted : names.Pairwise (· ≤ ·)) :
    (unique names).Pairwise (· < ·) := by
  cases names with
  | nil => exact .nil
  | cons first names => exact uniqueAfter_sorted sorted

theorem removeGroupDuplicates_sorted (group : List CppString) :
    (removeGroupDuplicates group).Pairwise (· < ·) :=
  unique_sorted (sortNames_sorted group)

theorem removeGroupDuplicates_nodup (group : List CppString) :
    (removeGroupDuplicates group).Nodup :=
  (removeGroupDuplicates_sorted group).imp fun less => ne_of_lt less

theorem mem_of_includes {names group : List CppString} (included : includes names group = true) :
    ∀ name ∈ group, name ∈ names := by
  fun_induction includes names group with
  | case1 names => exact fun _ member => absurd member List.not_mem_nil
  | case2 y ys => exact absurd included Bool.false_ne_true
  | case3 x xs y ys less => exact absurd included Bool.false_ne_true
  | case4 x xs y ys notLess less ih =>
      exact fun name member => List.mem_cons_of_mem _ (ih included name member)
  | case5 x xs y ys notLess notGreater ih =>
      intro name member
      rcases List.mem_cons.mp member with rfl | later
      · rw [le_antisymm (not_lt.mp notLess) (not_lt.mp notGreater)]
        exact List.mem_cons_self
      · exact List.mem_cons_of_mem _ (ih included name later)

/-! ## What each request does to the registry -/

theorem contains_or_eq_false {server : WhatsappServer} {name : CppString}
    (fresh : ¬ (server.clients.contains name || server.groups.contains name) = true) :
    name ∉ server.clients.keys ∧ name ∉ server.groups.keys := by
  rw [Bool.or_eq_true, not_or, SortedMap.contains_iff, SortedMap.contains_iff] at fresh
  exact fresh

theorem registered_connectNewClient {server : WhatsappServer} (registered : Registered server)
    (newSocket : Int) (newClientName : Option CppString) (wire : Wire) :
    Registered (connectNewClient server newSocket newClientName wire).1 := by
  have same : Registered { server with clientsfds := insert newSocket server.clientsfds } :=
    { registered with }
  rcases newClientName with - | name
  · exact same
  rw [connectNewClient]
  dsimp only
  split_ifs with taken
  · exact same
  obtain ⟨noClient, noGroup⟩ := contains_or_eq_false taken
  refine ⟨?_, ?_, registered.group_nonempty, registered.group_nodup, ?_⟩
  · refine (List.perm_ext_iff_of_nodup ?_ (SortedMap.keys_nodup _)).mpr ?_
    · refine List.nodup_append.mpr ⟨registered.clientsList_nodup, List.nodup_singleton _, ?_⟩
      rintro first isFirst second isSecond rfl
      rw [List.mem_singleton.mp isSecond] at isFirst
      exact noClient (registered.mem_clientsList.mp isFirst)
    · intro other
      rw [List.mem_append, List.mem_singleton, registered.mem_clientsList,
        SortedMap.mem_keys_insert, or_comm]
  · intro other member
    rcases SortedMap.mem_keys_insert.mp member with rfl | old
    · exact noGroup
    · exact registered.names_apart other old
  · intro groupName group found member inGroup
    exact SortedMap.mem_keys_insert.mpr
      (.inr (registered.group_connected groupName group found member inGroup))

/-- A group with connected members is added under a fresh name. -/
theorem Registered.insert_group {server : WhatsappServer} (registered : Registered server)
    {groupName : CppString} {group : List CppString} (noClient : groupName ∉ server.clients.keys)
    (nonempty : group ≠ []) (nodup : group.Nodup)
    (connected : ∀ member ∈ group, member ∈ server.clients.keys) :
    Registered { server with groups := server.groups.insert groupName group } := by
  have cases : ∀ other found, (server.groups.insert groupName group).find? other = some found →
      found = group ∨ server.groups.find? other = some found := by
    intro other found isFound
    rw [SortedMap.find?_insert] at isFound
    split_ifs at isFound with here
    · exact .inl (Option.some_inj.mp isFound).symm
    · exact .inr isFound
  refine ⟨registered.clientsList_perm, ?_, ?_, ?_, ?_⟩
  · intro name member inGroups
    rcases SortedMap.mem_keys_insert.mp inGroups with rfl | old
    · exact noClient member
    · exact registered.names_apart name member old
  · intro other found isFound
    rcases cases other found isFound with rfl | old
    · exact nonempty
    · exact registered.group_nonempty other found old
  · intro other found isFound
    rcases cases other found isFound with rfl | old
    · exact nodup
    · exact registered.group_nodup other found old
  · intro other found isFound
    rcases cases other found isFound with rfl | old
    · exact connected
    · exact registered.group_connected other found old

theorem registered_createGroup {server : WhatsappServer} (registered : Registered server)
    (client : Client) (groupName : CppString) (group : List CppString) (wire : Wire) :
    Registered (createGroup server client groupName group wire).1 := by
  rw [createGroup]
  split_ifs with taken
  · exact registered
  obtain ⟨noClient, -⟩ := contains_or_eq_false taken
  have sorted : Registered { server with clientsList := sortNames server.clientsList } :=
    registered.of_perm (sortNames_perm _)
  dsimp only
  split_ifs with small included
  · exact registered
  · have perm : (subset (removeGroupDuplicates (group ++ [client.1]))
        server.clientsList).2.1.Perm (removeGroupDuplicates (group ++ [client.1])) :=
      sortNames_perm _
    refine sorted.insert_group noClient ?_ ?_ ?_
    · intro empty
      have length := perm.length_eq
      rw [empty, List.length_nil] at length
      omega
    · exact perm.nodup_iff.mpr (removeGroupDuplicates_nodup _)
    · intro member inGroup
      exact sorted.mem_clientsList.mp (mem_of_includes included member inGroup)
  · exact sorted

theorem registered_clientExit {server : WhatsappServer} (registered : Registered server)
    (client : Client) : Registered (clientExit server client) := by
  have shrunk : ∀ groupName group, (clientExit server client).groups.find? groupName = some group →
      ∃ old, server.groups.find? groupName = some old ∧ group = old.filter (· ≠ client.1) ∧
        group ≠ [] := by
    intro groupName group found
    simp only [clientExit, SortedMap.find?_filterMap, Option.bind_eq_some_iff] at found
    obtain ⟨old, isOld, rewritten⟩ := found
    split_ifs at rewritten with empty
    rw [Option.some_inj] at rewritten
    exact ⟨old, isOld, rewritten.symm, fun isNil => empty (by rw [rewritten, isNil]; rfl)⟩
  refine ⟨?_, ?_, ?_, ?_, ?_⟩
  · refine (List.perm_ext_iff_of_nodup (registered.clientsList_nodup.filter _)
      (SortedMap.keys_nodup _)).mpr ?_
    intro name
    simp only [clientExit, List.mem_filter, registered.mem_clientsList,
      SortedMap.mem_keys_erase, decide_eq_true_eq]
    exact and_comm
  · intro name member inGroups
    obtain ⟨group, found⟩ := SortedMap.mem_keys.mp inGroups
    obtain ⟨old, isOld, -, -⟩ := shrunk name group found
    exact registered.names_apart name (SortedMap.mem_keys_erase.mp member).2
      (SortedMap.mem_keys.mpr ⟨old, isOld⟩)
  · intro groupName group found
    obtain ⟨_, _, _, nonempty⟩ := shrunk groupName group found
    exact nonempty
  · intro groupName group found
    obtain ⟨old, isOld, rfl, _⟩ := shrunk groupName group found
    exact (registered.group_nodup groupName old isOld).filter _
  · intro groupName group found member inGroup
    obtain ⟨old, isOld, rfl, _⟩ := shrunk groupName group found
    rw [List.mem_filter, decide_eq_true_eq] at inGroup
    exact SortedMap.mem_keys_erase.mpr
      ⟨inGroup.2, registered.group_connected groupName old isOld member inGroup.1⟩

/-! ## `send` only looks registered names up -/

theorem clientsIndex_of_find? {server : WhatsappServer} {name : CppString} {fd : Int}
    (found : server.clients.find? name = some fd) :
    clientsIndex server name = (fd, server) := by
  rw [clientsIndex, found]

theorem forward_server {server : WhatsappServer} {name : CppString}
    (connected : name ∈ server.clients.keys) (command : CppString) (wire : Wire) :
    (forward server name command wire).2.1 = server := by
  obtain ⟨fd, found⟩ := SortedMap.mem_keys.mp connected
  simp only [forward, clientsIndex_of_find? found]
  split_ifs <;> rfl

theorem forwardToMembers_server {server : WhatsappServer} (client : Client) (command : CppString)
    {members : List CppString} (connected : ∀ member ∈ members, member ∈ server.clients.keys)
    (wire : Wire) : (forwardToMembers client command members server wire).2.1 = server := by
  induction members generalizing wire with
  | nil => rfl
  | cons clientName members ih =>
      have later := ih fun member inRest => connected member (List.mem_cons_of_mem _ inRest)
      rw [forwardToMembers]
      split_ifs with isSender
      · exact later wire
      have one := forward_server (connected clientName List.mem_cons_self) command wire
      rcases result : forward server clientName command wire with ⟨failed, after, rest⟩
      rw [result] at one
      cases one
      cases failed with
      | true => rfl
      | false => exact later rest

/-- **`send` leaves the server as it is.** -/
theorem send_server {server : WhatsappServer} (registered : Registered server) (client : Client)
    (sendTo message : CppString) (wire : Wire) :
    (send server client sendTo message wire).1 = server := by
  rw [send]
  split_ifs with isClient
  · exact forward_server (SortedMap.contains_iff.mp isClient) _ wire
  · cases found : server.groups.find? sendTo with
    | none => rfl
    | some members =>
        dsimp only
        split_ifs with inGroup
        · exact forwardToMembers_server client _
            (registered.group_connected sendTo members found) wire
        · rfl

/-! ## Every run -/

theorem registered_serve {server : WhatsappServer} (registered : Registered server)
    {request : Request} {outcomes : List Bool} {after : WhatsappServer}
    {attempts : List Attempt} (served : serve server request outcomes = some (after, attempts)) :
    Registered after := by
  cases request with
  | connect newSocket newClientName =>
      cases served
      exact registered_connectNewClient registered newSocket newClientName _
  | createGroup client groupName group =>
      obtain ⟨fd, -, result⟩ := Option.map_eq_some_iff.mp served
      cases result
      exact registered_createGroup registered (client, fd) groupName group _
  | send client sendTo message =>
      obtain ⟨fd, -, result⟩ := Option.map_eq_some_iff.mp served
      cases result
      exact (send_server registered (client, fd) sendTo message ⟨[], outcomes⟩).symm ▸ registered
  | who client =>
      obtain ⟨fd, -, result⟩ := Option.map_eq_some_iff.mp served
      cases result
      exact registered.of_perm (sortNames_perm _)
  | exit client =>
      obtain ⟨fd, -, result⟩ := Option.map_eq_some_iff.mp served
      cases result
      exact registered_clientExit registered (client, fd)

theorem registered_step {clientsfds : Finset Int} {server after : WhatsappServer}
    {event : Request × List Bool} (registered : Registered server)
    (step : (registry clientsfds).step server event after) : Registered after := by
  obtain ⟨⟨_, attempts⟩, served, rfl⟩ := Option.map_eq_some_iff.mp step
  exact registered_serve registered served

/-- **The registry invariant holds in every reachable server state.** -/
theorem registered_of_reachable {clientsfds : Finset Int} {server : WhatsappServer}
    (reachable : (registry clientsfds).Reachable server) : Registered server :=
  reachable.invariant (fun _ initial => initial ▸ registered_initial clientsfds)
    fun _ _ _ _ registered step => registered_step registered step

/-! ## The reply to `who`, and names that come back -/

/-- The names joined by commas. -/
def joinComma (names : List CppString) : CppString := [','].intercalate names

theorem whoList_eq_joinComma (names : List CppString) : whoList names = joinComma names := by
  have ends : ∀ name rest, ((name :: rest : List CppString).flatMap fun clientName =>
      clientName ++ [',']) = joinComma (name :: rest) ++ [','] := by
    intro name rest
    induction rest generalizing name with
    | nil => simp [joinComma]
    | cons next rest ih =>
        rw [List.flatMap_cons, ih next]
        simp [joinComma, List.intercalate, List.intersperse]
  cases names with
  | nil => rfl
  | cons name rest => rw [whoList, ends, List.dropLast_concat]

/-- Sorting `clientsList` gives the keys of `clients`. -/
theorem Registered.sortNames_clientsList {server : WhatsappServer}
    (registered : Registered server) : sortNames server.clientsList = server.clients.keys :=
  List.Perm.eq_of_pairwise (fun _ _ _ _ => le_antisymm) (sortNames_sorted _)
    (server.clients.keys_sorted.imp fun less => le_of_lt less)
    ((sortNames_perm _).trans registered.clientsList_perm)

theorem Registered.who_attempts {server : WhatsappServer} (registered : Registered server)
    (client : Client) (outcomes : List Bool) :
    (who server client ⟨[], outcomes⟩).2.attempts =
      [⟨client.2, joinComma server.clients.keys, .response, outcomes.headD true⟩] := by
  simp only [who, Wire.respond, Wire.send, registered.sortNames_clientsList, whoList_eq_joinComma,
    List.nil_append]

/-- A name that is not registered is in no group. -/
theorem Registered.not_mem_group {server : WhatsappServer} (registered : Registered server)
    {name : CppString} (absent : name ∉ server.clients.keys) {groupName : CppString}
    {group : List CppString} (found : server.groups.find? groupName = some group) :
    name ∉ group :=
  fun member => absent (registered.group_connected groupName group found name member)

theorem connectNewClient_groups (server : WhatsappServer) (newSocket : Int)
    (newClientName : Option CppString) (wire : Wire) :
    (connectNewClient server newSocket newClientName wire).1.groups = server.groups := by
  rcases newClientName with - | name
  · rfl
  · rw [connectNewClient]
    dsimp only
    split_ifs <;> rfl

/-- **The registry.** In every reachable state the three collections fit
together; the reply to `who` is the connected names in increasing order, each
once, joined by commas; and a name that exits and registers again, after any
further requests, is in no group. -/
theorem registry_correct {clientsfds : Finset Int} {server : WhatsappServer}
    (reachable : (registry clientsfds).Reachable server) :
    Registered server ∧ server.clientsList.Nodup ∧
      (∀ client outcomes after attempts,
        serve server (.who client) outcomes = some (after, attempts) →
          ∃ fd names, server.clients.find? client = some fd ∧ names.Pairwise (· < ·) ∧
            (∀ name, name ∈ names ↔ name ∈ server.clients.keys) ∧
            attempts = [⟨fd, joinComma names, .response, outcomes.headD true⟩]) ∧
      (∀ client outcomes gone events later newSocket joined outcomes' attempts attempts',
        serve server (.exit client) outcomes = some (gone, attempts) →
        (registry clientsfds).Path gone events later →
        serve later (.connect newSocket (some client)) outcomes' = some (joined, attempts') →
        client ∉ later.clients.keys → client ∈ joined.clients.keys →
          ∀ groupName group, joined.groups.find? groupName = some group → client ∉ group) := by
  have registered := registered_of_reachable reachable
  refine ⟨registered, registered.clientsList_nodup, ?_, ?_⟩
  · intro client outcomes after attempts served
    obtain ⟨fd, found, result⟩ := Option.map_eq_some_iff.mp served
    refine ⟨fd, server.clients.keys, found, server.clients.keys_sorted, fun _ => Iff.rfl, ?_⟩
    rw [← registered.who_attempts (client, fd) outcomes]
    exact (Prod.ext_iff.mp result).2.symm
  · intro client outcomes gone events later newSocket joined outcomes' attempts attempts'
      exited path connected absent _ groupName group found
    have registeredLater : Registered later :=
      path.invariant (fun _ _ _ kept step => registered_step kept step)
        (registered_serve registered exited)
    cases connected
    rw [connectNewClient_groups] at found
    exact registeredLater.not_mem_group absent found

/-- Two connections and a group of the two clients. -/
def pairRequests : List (Request × List Bool) :=
  [(.connect 4 (some "bob".toList), []), (.connect 5 (some "ann".toList), []),
    (.createGroup "ann".toList "g".toList ["bob".toList], [])]

theorem registry_correct_pair : ∃ server,
    exec registryNext (initialServer ∅) pairRequests = some server ∧
      server.groups.find? "g".toList = some ["ann".toList, "bob".toList] ∧
      Registered server := by
  refine ⟨_, rfl, by decide +kernel, ?_⟩
  have run : exec registryNext (initialServer ∅) pairRequests = some _ := rfl
  exact (registry_correct (exec_reachable (.init rfl) run)).1

end Os2018.Whatsapp
