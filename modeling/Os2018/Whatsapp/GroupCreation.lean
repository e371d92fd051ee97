import Os2018.Whatsapp.Delivery

/-!
# Which groups are created

`createGroup` adds the sender to the requested names, sorts them and drops the
repetitions, asks for at least two names, and compares the sorted list with the
sorted `clientsList`. Since `clientsList` names every client once, the comparison
asks whether all members are connected (`includes_iff`), and two names are one
besides the sender (`two_le_length_iff`). So a group is created exactly if its
name is free, all requested names are connected and one of them is not the
sender's (`createGroup_correct`).
-/

set_option autoImplicit false

namespace Os2018.Whatsapp

open Transition

/-! ## Statement -/

/-- The name is taken by a client or a group. -/
def NameTaken (server : WhatsappServer) (groupName : CppString) : Prop :=
  groupName ∈ server.clients.keys ∨ groupName ∈ server.groups.keys

/-- The group may be created. -/
structure Creatable (server : WhatsappServer) (client groupName : CppString)
    (group : List CppString) : Prop where
  free : ¬ NameTaken server groupName
  connected : ∀ member ∈ group, member ∈ server.clients.keys
  other : ∃ member ∈ group, member ≠ client

/-- The group is stored with the requested names and the sender, in increasing
order and each once; nothing else changes. -/
structure GroupStored (server after : WhatsappServer) (client groupName : CppString)
    (group : List CppString) : Prop where
  stored : ∃ members, after.groups.find? groupName = some members ∧
    members.Pairwise (· < ·) ∧ ∀ member, member ∈ members ↔ member = client ∨ member ∈ group
  others : ∀ other, other ≠ groupName → after.groups.find? other = server.groups.find? other
  clients : after.clients = server.clients
  clientsList : after.clientsList.Perm server.clientsList

/-- Nothing changes but the order of `clientsList`. -/
structure GroupRefused (server after : WhatsappServer) : Prop where
  groups : after.groups = server.groups
  clients : after.clients = server.clients
  clientsList : after.clientsList.Perm server.clientsList

/-! ## The decision -/

theorem mem_unique {name : CppString} (names : List CppString) :
    name ∈ unique names ↔ name ∈ names := by
  cases names with
  | nil => rfl
  | cons first names => exact mem_uniqueAfter

theorem mem_removeGroupDuplicates {name : CppString} (group : List CppString) :
    name ∈ removeGroupDuplicates group ↔ name ∈ group := by
  rw [removeGroupDuplicates, mem_unique]
  exact (sortNames_perm group).mem_iff

/-- Of sorted lists, the second without repetitions, `std::includes` tells
whether one contains the other. -/
theorem includes_iff {names group : List CppString} (sorted : names.Pairwise (· ≤ ·))
    (strict : group.Pairwise (· < ·)) :
    includes names group = true ↔ ∀ name ∈ group, name ∈ names := by
  refine ⟨mem_of_includes, fun contained => ?_⟩
  fun_induction includes names group with
  | case1 names => rfl
  | case2 y ys => exact absurd (contained y List.mem_cons_self) List.not_mem_nil
  | case3 x xs y ys less =>
      rcases List.mem_cons.mp (contained y List.mem_cons_self) with rfl | later
      · exact absurd less (lt_irrefl y)
      · exact absurd ((List.pairwise_cons.mp sorted).1 y later) (not_le.mpr less)
  | case4 x xs y ys notLess less ih =>
      refine ih (List.pairwise_cons.mp sorted).2 strict fun name member => ?_
      refine (List.mem_cons.mp (contained name member)).resolve_left ?_
      rintro rfl
      rcases List.mem_cons.mp member with rfl | later
      · exact lt_irrefl name less
      · exact lt_asymm less ((List.pairwise_cons.mp strict).1 name later)
  | case5 x xs y ys notLess notGreater ih =>
      have same : x = y := le_antisymm (not_lt.mp notLess) (not_lt.mp notGreater)
      obtain ⟨above, strictRest⟩ := List.pairwise_cons.mp strict
      refine ih (List.pairwise_cons.mp sorted).2 strictRest fun name member => ?_
      refine (List.mem_cons.mp (contained name (List.mem_cons_of_mem _ member))).resolve_left ?_
      rintro rfl
      exact lt_irrefl y (same ▸ above name member)

/-- Two names, one of them the sender's, are one name besides it. -/
theorem two_le_length_iff {client : CppString} {members : List CppString}
    (nodup : members.Nodup) (isMember : client ∈ members) :
    2 ≤ members.length ↔ ∃ member ∈ members, member ≠ client := by
  have length : (members.erase client).length + 1 = members.length :=
    List.length_erase_add_one isMember
  constructor
  · intro two
    obtain ⟨member, inErased⟩ :=
      List.exists_mem_of_length_pos (l := members.erase client) (by omega)
    obtain ⟨different, inMembers⟩ := nodup.mem_erase_iff.mp inErased
    exact ⟨member, inMembers, different⟩
  · rintro ⟨member, inMembers, different⟩
    have nonempty := List.length_pos_of_mem (nodup.mem_erase_iff.mpr ⟨different, inMembers⟩)
    omega

/-- The members of the group that is asked for. -/
def requestedMembers (client : CppString) (group : List CppString) : List CppString :=
  removeGroupDuplicates (group ++ [client])

theorem requestedMembers_sorted (client : CppString) (group : List CppString) :
    (requestedMembers client group).Pairwise (· < ·) :=
  removeGroupDuplicates_sorted _

theorem requestedMembers_nodup (client : CppString) (group : List CppString) :
    (requestedMembers client group).Nodup :=
  removeGroupDuplicates_nodup _

theorem mem_requestedMembers {client name : CppString} {group : List CppString} :
    name ∈ requestedMembers client group ↔ name = client ∨ name ∈ group := by
  rw [requestedMembers, mem_removeGroupDuplicates, List.mem_append, List.mem_singleton, or_comm]

/-- The test on the number of names. -/
theorem two_le_requested_iff {client : CppString} {group : List CppString} :
    2 ≤ (requestedMembers client group).length ↔ ∃ member ∈ group, member ≠ client := by
  rw [two_le_length_iff (requestedMembers_nodup client group) (mem_requestedMembers.mpr (.inl rfl))]
  constructor
  · rintro ⟨member, requested, different⟩
    exact ⟨member, (mem_requestedMembers.mp requested).resolve_left different, different⟩
  · rintro ⟨member, inGroup, different⟩
    exact ⟨member, mem_requestedMembers.mpr (.inr inGroup), different⟩

/-- Sorting the sorted members again changes nothing. -/
theorem sortNames_requested (client : CppString) (group : List CppString) :
    sortNames (requestedMembers client group) = requestedMembers client group :=
  ((requestedMembers_sorted client group).imp fun less => le_of_lt less).insertionSort_eq

/-- The test against `clientsList`. -/
theorem subset_requested_iff {server : WhatsappServer} (registered : Registered server)
    {client : CppString} {group : List CppString} (connected : client ∈ server.clients.keys) :
    (subset (requestedMembers client group) server.clientsList).1 = true ↔
      ∀ member ∈ group, member ∈ server.clients.keys := by
  rw [subset]
  dsimp only
  rw [sortNames_requested, includes_iff (sortNames_sorted _) (requestedMembers_sorted client group),
    registered.sortNames_clientsList]
  constructor
  · exact fun all member inGroup => all member (mem_requestedMembers.mpr (.inr inGroup))
  · intro all member requested
    rcases mem_requestedMembers.mp requested with rfl | inGroup
    · exact connected
    · exact all member inGroup

/-! ## What `createGroup` does -/

section Create

variable {server : WhatsappServer} {client groupName : CppString} {group : List CppString}

theorem nameTaken_iff : (server.clients.contains groupName || server.groups.contains groupName) =
    true ↔ NameTaken server groupName := by
  rw [Bool.or_eq_true, SortedMap.contains_iff, SortedMap.contains_iff, NameTaken]

/-- The result of `createGroup`, by the answer it gives. -/
inductive Created (server : WhatsappServer) (client groupName : CppString)
    (group : List CppString) : WhatsappServer → CppString → Prop where
  | nameExists (taken : NameTaken server groupName) :
      Created server client groupName group server nameExistsSignal
  | fails (free : ¬ NameTaken server groupName) (clientsList : List CppString)
      (perm : clientsList.Perm server.clientsList)
      (refused : ¬ Creatable server client groupName group) :
      Created server client groupName group { server with clientsList } failureSignal
  | succeeds (creatable : Creatable server client groupName group) :
      Created server client groupName group
        { server with
          clientsList := sortNames server.clientsList
          groups := server.groups.insert groupName (requestedMembers client group) }
        successSignal

theorem created_of_createGroup (registered : Registered server)
    (connected : client ∈ server.clients.keys) (fd : Int) (groupName : CppString)
    (group : List CppString) (outcomes : List Bool) : ∃ after answer,
      createGroup server (client, fd) groupName group ⟨[], outcomes⟩ =
          (after, (⟨[], outcomes⟩ : Wire).respond fd answer) ∧
        Created server client groupName group after answer := by
  rw [createGroup]
  by_cases taken : NameTaken server groupName
  · exact ⟨server, nameExistsSignal, if_pos (nameTaken_iff.mpr taken), .nameExists taken⟩
  rw [if_neg fun isTaken => taken (nameTaken_iff.mp isTaken)]
  change ∃ after answer, (if (requestedMembers client group).length < 2 then _ else _) = _ ∧ _
  by_cases small : (requestedMembers client group).length < 2
  · rw [if_pos small]
    refine ⟨server, failureSignal, rfl, .fails taken server.clientsList (.refl _) ?_⟩
    exact fun creatable => absurd (two_le_requested_iff.mpr creatable.other) (not_le.mpr small)
  rw [if_neg small]
  dsimp only
  by_cases included : (subset (requestedMembers client group) server.clientsList).1 = true
  · refine ⟨_, successSignal, if_pos included, ?_⟩
    have members : (subset (requestedMembers client group) server.clientsList).2.1 =
        requestedMembers client group := sortNames_requested client group
    change Created server client groupName group { server with
      clientsList := sortNames server.clientsList
      groups := server.groups.insert groupName
        (subset (requestedMembers client group) server.clientsList).2.1 } successSignal
    rw [members]
    exact .succeeds ⟨taken, (subset_requested_iff registered connected).mp included,
      two_le_requested_iff.mp (not_lt.mp small)⟩
  · refine ⟨_, failureSignal, if_neg included, .fails taken _ (sortNames_perm _) ?_⟩
    exact fun creatable =>
      included ((subset_requested_iff registered connected).mpr creatable.connected)

theorem Created.stored {after : WhatsappServer} {answer : CppString}
    (created : Created server client groupName group after answer)
    (creatable : Creatable server client groupName group) :
    GroupStored server after client groupName group ∧ answer = successSignal := by
  cases created with
  | nameExists taken => exact absurd taken creatable.free
  | fails free clientsList perm refused => exact absurd creatable refused
  | succeeds _ =>
      refine ⟨⟨⟨requestedMembers client group, ?_, requestedMembers_sorted client group,
        fun member => mem_requestedMembers⟩, ?_, rfl, sortNames_perm _⟩, rfl⟩
      · rw [SortedMap.find?_insert, if_pos rfl]
      · intro other different
        rw [SortedMap.find?_insert, if_neg different]

theorem Created.refused {after : WhatsappServer} {answer : CppString}
    (created : Created server client groupName group after answer)
    (refused : ¬ Creatable server client groupName group) :
    GroupRefused server after ∧
      (NameTaken server groupName → answer = nameExistsSignal) ∧
      (¬ NameTaken server groupName → answer = failureSignal) := by
  cases created with
  | nameExists taken => exact ⟨⟨rfl, rfl, .refl _⟩, fun _ => rfl, fun free => absurd taken free⟩
  | fails free clientsList perm _ =>
      exact ⟨⟨rfl, rfl, perm⟩, fun taken => absurd taken free, fun _ => rfl⟩
  | succeeds creatable => exact absurd creatable refused

end Create

/-- **Creating a group.** In every reachable state, a connected client's request
creates the group, with the right members, exactly if the name is free, all
requested names are connected and one of them is not the sender's; and the sender
gets one response that says which case it was. -/
theorem createGroup_correct {clientsfds : Finset Int} {server : WhatsappServer}
    (reachable : (registry clientsfds).Reachable server) {client : CppString} {fd : Int}
    (connected : server.clients.find? client = some fd) (groupName : CppString)
    (group : List CppString) (outcomes : List Bool) : ∃ after answer,
      createGroup server (client, fd) groupName group ⟨[], outcomes⟩ =
          (after, ⟨[⟨fd, answer, .response, outcomes.headD true⟩], outcomes.tail⟩) ∧
        (after.groups ≠ server.groups ↔ Creatable server client groupName group) ∧
        (Creatable server client groupName group →
          GroupStored server after client groupName group ∧ answer = successSignal) ∧
        (¬ Creatable server client groupName group →
          GroupRefused server after ∧
            (NameTaken server groupName → answer = nameExistsSignal) ∧
            (¬ NameTaken server groupName → answer = failureSignal)) := by
  obtain ⟨after, answer, result, created⟩ := created_of_createGroup
    (registered_of_reachable reachable) (SortedMap.mem_keys.mpr ⟨fd, connected⟩) fd groupName
    group outcomes
  refine ⟨after, answer, result, ⟨fun changed => ?_, fun creatable same => ?_⟩, created.stored,
    created.refused⟩
  · by_contra refused
    exact changed (created.refused refused).1.groups
  · obtain ⟨members, isStored, -⟩ := (created.stored creatable).1.stored
    rw [same] at isStored
    exact creatable.free (.inr (SortedMap.mem_keys.mpr ⟨members, isStored⟩))

/-- A request that names the sender, and a member twice. -/
theorem createGroup_correct_repeated : ∃ server after answer,
    exec registryNext (initialServer ∅)
        [(.connect 4 (some "bob".toList), []), (.connect 5 (some "ann".toList), [])] =
      some server ∧
    createGroup server ("ann".toList, 5) "g".toList
        ["bob".toList, "ann".toList, "bob".toList] ⟨[], []⟩ =
      (after, ⟨[⟨5, answer, .response, true⟩], []⟩) ∧
    GroupStored server after "ann".toList "g".toList
      ["bob".toList, "ann".toList, "bob".toList] ∧ answer = successSignal := by
  obtain ⟨server, run, connected, clients, groups⟩ : ∃ server,
      exec registryNext (initialServer ∅)
          [(.connect 4 (some "bob".toList), []), (.connect 5 (some "ann".toList), [])] =
        some server ∧
      server.clients.find? "ann".toList = some 5 ∧
      server.clients.keys = ["ann".toList, "bob".toList] ∧ server.groups.keys = [] :=
    ⟨_, rfl, by decide +kernel, by decide +kernel, by decide +kernel⟩
  obtain ⟨after, answer, result, -, created, -⟩ := createGroup_correct
    (exec_reachable (.init rfl) run) connected "g".toList
    ["bob".toList, "ann".toList, "bob".toList] []
  refine ⟨server, after, answer, run, result, created ⟨?_, ?_, ?_⟩⟩
  · rw [NameTaken, clients, groups]
    decide
  · rw [clients]
    decide
  · exact ⟨"bob".toList, by decide, by decide⟩

end Os2018.Whatsapp
