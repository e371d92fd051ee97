import Os2018.Library.Cells
import Os2018.Whatsapp.GroupCreation
import Os2018.Whatsapp.Steps

/-!
# Clients and groups since the server started

A name is given to a connection when it is free, and taken away by its exit. A
group is stored when its name is free; an exit takes one member from it, and the
group goes with its last member. So both registries are cells for each name, and
the requests so far say what they hold (`registry_history`): the one connection
under the name since which it has not exited, and the members with which the group
was created, without those who have exited since. A client who comes back under
its old name is not in the groups that it left.

A session of clients and server serves the requests that its lines make, and
nothing else changes the registries (`session_refines_registry`).
-/

set_option autoImplicit false

namespace Os2018.Whatsapp

open Transition

/-! ## What a request does to the registries -/

/-- The group without a client, if anyone is left. -/
def remaining (client : CppString) (members : List CppString) : Option (List CppString) :=
  let members := members.filter (· ≠ client)
  if members.isEmpty then none else some members

/-- The clients and the groups after a request. -/
inductive RegistryStep (server : WhatsappServer) :
    Request → SortedMap CppString Int → SortedMap CppString (List CppString) → Prop where
  | connects (fd : Int) (name : CppString) (free : ¬ NameTaken server name) :
      RegistryStep server (.connect fd (some name)) (server.clients.insert name fd) server.groups
  | creates (client groupName : CppString) (group : List CppString)
      (creatable : Creatable server client groupName group) :
      RegistryStep server (.createGroup client groupName group) server.clients
        (server.groups.insert groupName (requestedMembers client group))
  | leaves (client : CppString) :
      RegistryStep server (.exit client) (server.clients.erase client)
        (server.groups.filterMap (remaining client))
  | idle (request : Request)
      (connects : ∀ fd name, request = .connect fd (some name) → NameTaken server name)
      (creates : ∀ client groupName group, request = .createGroup client groupName group →
        ¬ Creatable server client groupName group)
      (stays : ∀ client, request ≠ .exit client) :
      RegistryStep server request server.clients server.groups

section Registry

variable {server after : WhatsappServer} {event : Request × List Bool}

theorem connect_cases (server : WhatsappServer) (fd : Int) (name : Option CppString) (wire : Wire) :
    RegistryStep server (.connect fd name) (connectNewClient server fd name wire).1.clients
      (connectNewClient server fd name wire).1.groups := by
  have unchanged : (∀ name', name = some name' → NameTaken server name') →
      RegistryStep server (.connect fd name) server.clients server.groups := by
    refine fun taken => .idle _ (fun fd' name' same => ?_) (fun _ _ _ same => ?_) fun _ same => ?_
    · cases same
      exact taken name' rfl
    · cases same
    · cases same
  rcases name with - | name
  · exact unchanged fun name' same => by cases same
  rw [connectNewClient]
  dsimp only
  split_ifs with taken
  · refine unchanged fun name' same => ?_
    cases same
    exact nameTaken_iff.mp taken
  · exact .connects fd name fun isTaken => taken (nameTaken_iff.mpr isTaken)

theorem registry_cases (registered : Registered server)
    (step : registryNext server event = some after) :
    RegistryStep server event.1 after.clients after.groups := by
  obtain ⟨request, outcomes⟩ := event
  obtain ⟨⟨_, attempts⟩, served, rfl⟩ := Option.map_eq_some_iff.mp step
  cases request with
  | connect fd name =>
      cases served
      exact connect_cases server fd name _
  | createGroup client groupName group =>
      obtain ⟨fd, found, result⟩ := Option.map_eq_some_iff.mp served
      obtain ⟨next, answer, isNext, created⟩ := created_of_createGroup registered
        (SortedMap.mem_keys.mpr ⟨fd, found⟩) fd groupName group outcomes
      rw [isNext] at result
      cases result
      have refuses : ¬ Creatable server client groupName group →
          RegistryStep server (.createGroup client groupName group) server.clients
            server.groups := by
        refine fun refused => .idle _ nofun (fun client' groupName' group' same => ?_) nofun
        cases same
        exact refused
      cases created with
      | nameExists taken => exact refuses fun creatable => creatable.free taken
      | fails free clientsList perm refused => exact refuses refused
      | succeeds creatable => exact .creates client groupName group creatable
  | send client sendTo message =>
      obtain ⟨fd, -, result⟩ := Option.map_eq_some_iff.mp served
      cases result
      dsimp only
      rw [send_server registered]
      exact .idle _ nofun nofun nofun
  | who client =>
      obtain ⟨fd, -, result⟩ := Option.map_eq_some_iff.mp served
      cases result
      exact .idle _ nofun nofun nofun
  | exit client =>
      obtain ⟨fd, -, result⟩ := Option.map_eq_some_iff.mp served
      cases result
      exact .leaves client

/-! ## Exits -/

/-- The names that exit. -/
def exits (events : List (Request × List Bool)) : List CppString :=
  events.filterMap fun event =>
    match event.1 with
    | .exit client => some client
    | _ => none

/-- What a request leaves of the connection under a name. -/
def staysConnected (name : CppString) (request : Request) (fd : Int) : Option Int :=
  match request with
  | .exit client => if client = name then none else some fd
  | _ => some fd

/-- What a request leaves of a group. -/
def staysMember (request : Request) (members : List CppString) : Option (List CppString) :=
  match request with
  | .exit client => remaining client members
  | _ => some members

theorem exits_cons (client : CppString) (outcomes : List Bool)
    (events : List (Request × List Bool)) :
    exits ((.exit client, outcomes) :: events) = client :: exits events := rfl

theorem changeAll_staysConnected {name : CppString} {fd fd' : Int}
    (events : List (Request × List Bool)) :
    changeAll (fun event => staysConnected name event.1) fd events = some fd' ↔
      fd = fd' ∧ name ∉ exits events := by
  induction events with
  | nil => simp [exits]
  | cons event events ih =>
      obtain ⟨request, outcomes⟩ := event
      rw [changeAll_cons]
      cases request with
      | exit client =>
          rw [exits_cons, List.mem_cons, not_or]
          by_cases same : client = name
          · simp [staysConnected, same]
          · simp only [staysConnected, if_neg same, Option.bind_some, ih]
            simp [Ne.symm same]
      | _ => exact ih

theorem filter_exits_cons (client : CppString) (outcomes : List Bool)
    (events : List (Request × List Bool)) (members : List CppString) :
    members.filter (· ∉ exits ((.exit client, outcomes) :: events)) =
      (members.filter (· ≠ client)).filter (· ∉ exits events) := by
  rw [List.filter_filter, exits_cons]
  refine List.filter_congr fun member _ => ?_
  rw [← Bool.decide_and]
  exact decide_eq_decide.mpr (by rw [List.mem_cons, not_or, and_comm])

theorem changeAll_staysMember {members members' : List CppString} (someone : members ≠ [])
    (events : List (Request × List Bool)) :
    changeAll (fun event => staysMember event.1) members events = some members' ↔
      members' = members.filter (· ∉ exits events) ∧ members' ≠ [] := by
  induction events generalizing members with
  | nil =>
      rw [changeAll_nil, Option.some.injEq]
      constructor
      · rintro rfl
        exact ⟨by simp [exits], someone⟩
      · rintro ⟨rfl, -⟩
        simp [exits]
  | cons event events ih =>
      obtain ⟨request, outcomes⟩ := event
      rw [changeAll_cons]
      cases request with
      | exit client =>
          rw [filter_exits_cons, staysMember, remaining]
          by_cases none : (members.filter (· ≠ client)).isEmpty = true
          · rw [if_pos none, List.isEmpty_iff.mp none]
            simp
          · rw [if_neg none, Option.bind_some]
            exact ih fun empty => none (List.isEmpty_iff.mpr empty)
      | _ => exact ih someone

/-! ## The registries as cells -/

variable {request : Request} {clients : SortedMap CppString Int}
  {groups : SortedMap CppString (List CppString)}

/-- A name after a request. -/
theorem RegistryStep.client_cases (step : RegistryStep server request clients groups)
    (name : CppString) :
    (∃ fd, request = .connect fd (some name) ∧ ¬ NameTaken server name ∧
        clients.find? name = some fd) ∨
      (∀ fd, request = .connect fd (some name) → NameTaken server name) ∧
        clients.find? name = (server.clients.find? name).bind (staysConnected name request) := by
  cases step with
  | connects fd other free =>
      rw [SortedMap.find?_insert]
      by_cases same : name = other
      · subst same
        exact .inl ⟨fd, rfl, free, if_pos rfl⟩
      · rw [if_neg same]
        refine .inr ⟨fun fd' isConnect => ?_, (Option.bind_fun_some _).symm⟩
        cases isConnect
        exact absurd rfl same
  | creates client groupName group creatable => exact .inr ⟨nofun, (Option.bind_fun_some _).symm⟩
  | leaves client =>
      refine .inr ⟨nofun, ?_⟩
      rw [SortedMap.find?_erase]
      by_cases same : name = client
      · rw [if_pos same]
        cases server.clients.find? name with
        | none => rfl
        | some fd => exact (if_pos same.symm).symm
      · rw [if_neg same]
        cases server.clients.find? name with
        | none => rfl
        | some fd => exact (if_neg (Ne.symm same)).symm
  | idle _ connects creates stays =>
      refine .inr ⟨fun fd isConnect => connects fd name isConnect, ?_⟩
      cases request with
      | exit client => exact absurd rfl (stays client)
      | _ => exact (Option.bind_fun_some _).symm

/-- A group after a request. -/
theorem RegistryStep.group_cases (step : RegistryStep server request clients groups)
    (groupName : CppString) :
    (∃ client group, request = .createGroup client groupName group ∧
        Creatable server client groupName group ∧
          groups.find? groupName = some (requestedMembers client group)) ∨
      (∀ client group, request = .createGroup client groupName group →
        ¬ Creatable server client groupName group) ∧
        groups.find? groupName = (server.groups.find? groupName).bind (staysMember request) := by
  cases step with
  | connects fd name free => exact .inr ⟨nofun, (Option.bind_fun_some _).symm⟩
  | creates client other group creatable =>
      rw [SortedMap.find?_insert]
      by_cases same : groupName = other
      · subst same
        exact .inl ⟨client, group, rfl, creatable, if_pos rfl⟩
      · rw [if_neg same]
        refine .inr ⟨fun client' group' isCreate => ?_, (Option.bind_fun_some _).symm⟩
        cases isCreate
        exact absurd rfl same
  | leaves client => exact .inr ⟨nofun, SortedMap.find?_filterMap ..⟩
  | idle _ connects creates stays =>
      refine .inr ⟨fun client group isCreate => creates client groupName group isCreate, ?_⟩
      cases request with
      | exit client => exact absurd rfl (stays client)
      | _ => exact (Option.bind_fun_some _).symm

theorem client_cell (name : CppString) :
    Cell registryNext Registered (fun server => server.clients.find? name)
      (fun server event fd => event.1 = .connect fd (some name) ∧ ¬ NameTaken server name)
      (fun event => staysConnected name event.1) where
  written := by
    rintro server event after fd registered step ⟨isConnect, free⟩
    rcases (registry_cases registered step).client_cases name with
      ⟨fd', isConnect', -, found⟩ | ⟨taken, -⟩
    · rw [isConnect] at isConnect'
      cases isConnect'
      refine ⟨Option.eq_none_iff_forall_ne_some.mpr fun fd' old => free (.inl ?_), found⟩
      exact SortedMap.mem_keys.mpr ⟨fd', old⟩
    · exact absurd (taken fd isConnect) free
  changed := by
    intro server event after registered step noWrite
    rcases (registry_cases registered step).client_cases name with
      ⟨fd, isConnect, free, -⟩ | ⟨-, found⟩
    · exact absurd ⟨isConnect, free⟩ (noWrite fd)
    · exact found

theorem group_cell (groupName : CppString) :
    Cell registryNext Registered (fun server => server.groups.find? groupName)
      (fun server event members => ∃ client group, event.1 = .createGroup client groupName group ∧
        Creatable server client groupName group ∧ members = requestedMembers client group)
      (fun event => staysMember event.1) where
  written := by
    rintro server event after members registered step ⟨client, group, isCreate, creatable, rfl⟩
    rcases (registry_cases registered step).group_cases groupName with
      ⟨client', group', isCreate', -, found⟩ | ⟨refused, -⟩
    · rw [isCreate] at isCreate'
      cases isCreate'
      refine ⟨Option.eq_none_iff_forall_ne_some.mpr fun old isOld => creatable.free (.inr ?_),
        found⟩
      exact SortedMap.mem_keys.mpr ⟨old, isOld⟩
    · exact absurd creatable (refused client group isCreate)
  changed := by
    intro server event after registered step noWrite
    rcases (registry_cases registered step).group_cases groupName with
      ⟨client, group, isCreate, creatable, -⟩ | ⟨-, found⟩
    · exact absurd ⟨client, group, isCreate, creatable, rfl⟩ (noWrite _)
    · exact found

/-- **The registries and the requests so far.** After every run, a name is
connected under a descriptor exactly if it was given to that connection while it
was free and has not exited since. A group has exactly the members it was created
with, when that was possible, without those who have exited since, and is gone
when all have. -/
theorem registry_history {clientsfds : Finset Int} {events : List (Request × List Bool)}
    (run : exec registryNext (initialServer clientsfds) events = some server) :
    (∀ name fd, server.clients.find? name = some fd ↔
      ∃ before outcomes later u, events = before ++ (.connect fd (some name), outcomes) :: later ∧
        exec registryNext (initialServer clientsfds) before = some u ∧ ¬ NameTaken u name ∧
          name ∉ exits later) ∧
    ∀ groupName members, server.groups.find? groupName = some members ↔
      ∃ before client group outcomes later u,
        events = before ++ (.createGroup client groupName group, outcomes) :: later ∧
          exec registryNext (initialServer clientsfds) before = some u ∧
            Creatable u client groupName group ∧
              members = (requestedMembers client group).filter (· ∉ exits later) ∧
                members ≠ [] := by
  have keep : ∀ server event after, Registered server → registryNext server event = some after →
      Registered after := fun server event after => @registered_step clientsfds server after event
  have start := registered_initial clientsfds
  refine ⟨fun name fd => ?_, fun groupName members => ?_⟩
  · refine ((client_cell name).history keep start (SortedMap.find?_empty name) run).trans ?_
    constructor
    · rintro ⟨before, ⟨_, outcomes⟩, later, u, first, split, run', ⟨rfl, free⟩, left⟩
      obtain ⟨rfl, stays⟩ := (changeAll_staysConnected later).mp left
      exact ⟨before, outcomes, later, u, split, run', free, stays⟩
    · rintro ⟨before, outcomes, later, u, split, run', free, stays⟩
      exact ⟨before, _, later, u, fd, split, run', ⟨rfl, free⟩,
        (changeAll_staysConnected later).mpr ⟨rfl, stays⟩⟩
  · refine ((group_cell groupName).history keep start (SortedMap.find?_empty groupName)
      run).trans ?_
    have someone : ∀ client group, requestedMembers client group ≠ [] := fun client group =>
      List.ne_nil_of_mem (mem_requestedMembers.mpr (.inl rfl))
    constructor
    · rintro ⟨before, ⟨_, outcomes⟩, later, u, _, split, run', ⟨client, group, rfl, creatable, rfl⟩,
        left⟩
      exact ⟨before, client, group, outcomes, later, u, split, run', creatable,
        (changeAll_staysMember (someone client group) later).mp left⟩
    · rintro ⟨before, client, group, outcomes, later, u, split, run', creatable, left⟩
      exact ⟨before, _, later, u, _, split, run', ⟨client, group, rfl, creatable, rfl⟩,
        (changeAll_staysMember (someone client group) later).mpr left⟩

/-- Bob leaves the group of ann and dan, and comes back. -/
def returnRequests : List (Request × List Bool) :=
  [(.connect 4 (some "bob".toList), []), (.connect 5 (some "ann".toList), []),
    (.connect 6 (some "dan".toList), []),
    (.createGroup "ann".toList "g".toList ["bob".toList, "dan".toList], []),
    (.exit "bob".toList, []), (.connect 7 (some "bob".toList), [])]

theorem registry_history_return : ∃ server,
    exec registryNext (initialServer ∅) returnRequests = some server ∧
      server.clients.find? "bob".toList = some 7 ∧
      ∃ before client group outcomes later u,
        returnRequests = before ++ (.createGroup client "g".toList group, outcomes) :: later ∧
          exec registryNext (initialServer ∅) before = some u ∧
            Creatable u client "g".toList group ∧
              ["ann".toList, "dan".toList] =
                (requestedMembers client group).filter (· ∉ exits later) := by
  obtain ⟨server, run, isBob, isGroup⟩ : ∃ server,
      exec registryNext (initialServer ∅) returnRequests = some server ∧
        server.clients.find? "bob".toList = some 7 ∧
        server.groups.find? "g".toList = some ["ann".toList, "dan".toList] :=
    ⟨_, rfl, by decide +kernel, by decide +kernel⟩
  obtain ⟨before, client, group, outcomes, later, u, split, run', creatable, members, -⟩ :=
    ((registry_history run).2 _ _).mp isGroup
  exact ⟨server, run, isBob, before, client, group, outcomes, later, u, split, run', creatable,
    members⟩

end Registry

/-! ## Sessions -/

/-- The request that a line of a client makes. -/
def requestOf (client line : CppString) : Option Request :=
  match parseCommand line with
  | .ok parsed =>
      match parsed.commandT with
      | .createGroup => some (.createGroup client parsed.name parsed.clients)
      | .send => some (.send client parsed.name parsed.message)
      | .who => some (.who client)
      | .exit => some (.exit client)
      | .invalid => none
  | .error _ => none

/-- The requests that a step of a session makes to the server. All writes
succeed. -/
def served (s : Session) (event : SessionEvent) (_ : Session) : List (Request × List Bool) :=
  match event with
  | .join fd name => [(.connect fd (some name), [])]
  | .serve fd =>
      match s.connection fd with
      | some c => (c.requests.take 1).filterMap fun request =>
          (requestOf c.name request.2).map fun request => (request, [])
      | none => []
  | _ => []

/-- Handling a line is serving its request. -/
theorem exec_requestOf {server after : WhatsappServer} {client line : CppString} {fd : Int}
    {wire : Wire} (connected : server.clients.find? client = some fd)
    (handled : handleClientRequest server (client, fd) (some line) ⟨[], []⟩ = .ok (after, wire)) :
    exec registryNext server ((requestOf client line).toList.map fun request => (request, [])) =
      some after := by
  rcases parsed : parseCommand line with error | ⟨commandT, name, message, clients⟩
  · simp only [handleClientRequest, parsed] at handled
    cases handled
  rw [handle_parsed parsed, Except.ok.injEq] at handled
  rw [requestOf, parsed]
  cases commandT with
  | invalid =>
      cases handled
      rfl
  | _ =>
      simp only [Option.toList_some, List.map_cons, List.map_nil, exec_cons, exec_nil, registryNext,
        serve, connected, Option.map_some, Option.bind_some]
      exact congrArg (some ∘ Prod.fst) handled

section Sessions

variable {clientsfds : Finset Int} {events : List SessionEvent} {s t : Session}
  {event : SessionEvent}

/-- One step of the session makes its requests. -/
theorem Linked.serves_requests (linked : Linked s) (step : s.next event = some t) :
    exec registryNext s.server (served s event t) = some t.server := by
  cases event with
  | join fd name =>
      obtain ⟨-, -, -, server, -⟩ := join_cases step
      rw [server]
      rfl
  | command fd line =>
      obtain ⟨-, after, -, -, rfl⟩ := update_cases step
      rfl
  | arrive fd =>
      obtain ⟨-, after, -, -, rfl⟩ := update_cases step
      rfl
  | receive fd =>
      obtain ⟨-, after, -, -, rfl⟩ := update_cases step
      rfl
  | serve fd =>
      obtain ⟨c, name, request, line, requests, server, wire, -, found, registered, oldest,
        handled, isNext⟩ := serve_cases step
      obtain rfl := linked.name_of_registered found registered
      have made : served s (.serve fd) t =
          (requestOf c.name line).toList.map fun request => (request, []) := by
        rw [served, found]
        dsimp only
        rw [oldest, List.take_succ_cons, List.take_zero, List.filterMap_cons, List.filterMap_nil]
        cases requestOf c.name line <;> rfl
      rw [made, exec_requestOf registered handled, isNext]
  | shutdown =>
      rw [(shutdown_cases step).1]
      rfl

/-- **The server among its clients.** In every session, the server is where its
requests alone have brought it, so that what holds of every run of the registries
holds of the server of every session. -/
theorem session_refines_registry
    (run : exec Session.next (initialSession clientsfds) events = some t) :
    exec registryNext (initialServer clientsfds)
      (trace Session.next served (initialSession clientsfds) events) = some t.server := by
  have free : ∀ server requests, StepsMeet registryNext (fun _ _ => True) server requests :=
    fun server _ => stepsMeet_of_forall (fun _ _ _ => trivial) server
  exact (exec_refines (P := Linked) (C := fun _ _ => True) Session.server served
    (fun _ _ _ linked _ step => ⟨linked.next step, linked.serves_requests step, free _ _⟩)
    run (stepsMeet_of_forall (fun _ _ _ => trivial) _) (linked_initial clientsfds)).1

/-- Ann asks for the clients; bob's chat message changes nothing. -/
theorem session_refines_registry_quiet : ∃ t,
    exec Session.next (initialSession ∅) quietEvents = some t ∧
      exec registryNext (initialServer ∅)
        (trace Session.next served (initialSession ∅) quietEvents) = some t.server := by
  obtain ⟨t, run⟩ : ∃ t, exec Session.next (initialSession ∅) quietEvents = some t := ⟨_, rfl⟩
  exact ⟨t, run, session_refines_registry run⟩

end Sessions

end Os2018.Whatsapp
