import Os2018.Whatsapp.Registry

/-!
# What the server writes for a request

`recipients` is what `send` is for: the target alone when it is a client, the
other members when it is a group of the sender, and nobody otherwise. When all
writes succeed, `send` writes the two frames of the chat message to every
recipient in turn and then one response to the sender (`send_attempts`); the
other requests write their one response and nothing else.
-/

set_option autoImplicit false

namespace Os2018.Whatsapp

/-- The clients a message is for. -/
def recipients (server : WhatsappServer) (client sendTo : CppString) : List CppString :=
  if server.clients.contains sendTo then [sendTo]
  else
    match server.groups.find? sendTo with
    | some members => if client ∈ members then members.filter (· ≠ client) else []
    | none => []

theorem Registered.recipients_connected {server : WhatsappServer} (registered : Registered server)
    {client sendTo name : CppString} (member : name ∈ recipients server client sendTo) :
    name ∈ server.clients.keys := by
  rw [recipients] at member
  split_ifs at member with isClient
  · rw [List.mem_singleton.mp member]
    exact SortedMap.contains_iff.mp isClient
  · cases found : server.groups.find? sendTo with
    | none =>
        rw [found] at member
        exact absurd member List.not_mem_nil
    | some members =>
        rw [found] at member
        dsimp only at member
        split_ifs at member with inGroup
        · exact registered.group_connected sendTo members found name (List.mem_of_mem_filter member)
        · exact absurd member List.not_mem_nil

theorem Registered.recipients_nodup {server : WhatsappServer} (registered : Registered server)
    (client sendTo : CppString) : (recipients server client sendTo).Nodup := by
  rw [recipients]
  split_ifs with isClient
  · exact List.nodup_singleton _
  · cases found : server.groups.find? sendTo with
    | none => exact List.nodup_nil
    | some members =>
        dsimp only
        split_ifs with inGroup
        · exact (registered.group_nodup sendTo members found).filter _
        · exact List.nodup_nil

/-- The sender is a recipient only of a message it addressed to itself. -/
theorem sender_not_mem_recipients {server : WhatsappServer} {client sendTo : CppString}
    (other : sendTo ≠ client) : client ∉ recipients server client sendTo := by
  rw [recipients]
  split_ifs with isClient
  · exact fun member => other (List.mem_singleton.mp member).symm
  · cases found : server.groups.find? sendTo with
    | none => exact List.not_mem_nil
    | some members =>
        dsimp only
        split_ifs with inGroup
        · simp
        · exact List.not_mem_nil

/-! ## The frames, when every write succeeds -/

/-- The two frames of a chat message to one client. -/
def chatAttempts (server : WhatsappServer) (command name : CppString) : List Attempt :=
  [⟨(server.clients.find? name).getD 0, sendQue, .marker, true⟩,
    ⟨(server.clients.find? name).getD 0, command, .chat, true⟩]

theorem forward_eq {server : WhatsappServer} {name : CppString}
    (connected : name ∈ server.clients.keys) (command : CppString) (attempts : List Attempt) :
    forward server name command ⟨attempts, []⟩ =
      (false, server, ⟨attempts ++ chatAttempts server command name, []⟩) := by
  obtain ⟨fd, found⟩ := SortedMap.mem_keys.mp connected
  simp [forward, clientsIndex_of_find? found, Wire.send, chatAttempts, found]

theorem forwardToMembers_eq {server : WhatsappServer} (client : Client) (command : CppString)
    {members : List CppString} (connected : ∀ member ∈ members, member ∈ server.clients.keys)
    (attempts : List Attempt) :
    forwardToMembers client command members server ⟨attempts, []⟩ =
      (false, server, ⟨attempts ++
        (members.filter (· ≠ client.1)).flatMap (chatAttempts server command), []⟩) := by
  induction members generalizing attempts with
  | nil => simp [forwardToMembers]
  | cons clientName members ih =>
      have later := ih fun member inRest => connected member (List.mem_cons_of_mem _ inRest)
      rw [forwardToMembers]
      split_ifs with isSender
      · rw [later, List.filter_cons_of_neg (by simpa using isSender)]
      · rw [forward_eq (connected clientName List.mem_cons_self)]
        dsimp only
        rw [later, List.filter_cons_of_pos (by simpa using isSender), List.flatMap_cons,
          List.append_assoc]

/-- **What `send` writes.** -/
theorem send_attempts {server : WhatsappServer} (registered : Registered server) (client : Client)
    (sendTo message : CppString) : ∃ text,
      (send server client sendTo message ⟨[], []⟩).2.attempts =
        (recipients server client.1 sendTo).flatMap
            (chatAttempts server (chatText client message)) ++
          [⟨client.2, text, .response, true⟩] := by
  rw [send, recipients]
  split_ifs with isClient
  · refine ⟨successSignal, ?_⟩
    rw [forward_eq (SortedMap.contains_iff.mp isClient)]
    simp [Wire.respond, Wire.send, sendOutcome]
  · cases found : server.groups.find? sendTo with
    | none => exact ⟨failureSignal, rfl⟩
    | some members =>
        dsimp only
        split_ifs with inGroup
        · refine ⟨successSignal, ?_⟩
          rw [forwardToMembers_eq client _ (registered.group_connected sendTo members found)]
          simp [Wire.respond, Wire.send, sendOutcome]
        · exact ⟨failureSignal, rfl⟩

theorem createGroup_attempts (server : WhatsappServer) (client : Client) (groupName : CppString)
    (group : List CppString) : ∃ text,
      (createGroup server client groupName group ⟨[], []⟩).2.attempts =
        [⟨client.2, text, .response, true⟩] := by
  rw [createGroup]
  dsimp only
  split_ifs
  · exact ⟨nameExistsSignal, rfl⟩
  · exact ⟨failureSignal, rfl⟩
  · exact ⟨successSignal, rfl⟩
  · exact ⟨failureSignal, rfl⟩

theorem createGroup_clients (server : WhatsappServer) (client : Client) (groupName : CppString)
    (group : List CppString) (wire : Wire) :
    (createGroup server client groupName group wire).1.clients = server.clients := by
  rw [createGroup]
  dsimp only
  split_ifs <;> rfl

theorem serverExit_attempts (server : WhatsappServer) :
    (serverExit server ⟨[], []⟩).attempts =
      server.clients.entries.map fun entry => ⟨entry.2, exitSignal, .exitNotice, true⟩ := by
  have sent : ∀ (entries : List (CppString × Int)) (attempts : List Attempt),
      (entries.foldl (fun (wire : Wire) client =>
          (wire.send client.2 exitSignal .exitNotice).2) ⟨attempts, []⟩) =
        ⟨attempts ++ entries.map fun entry => ⟨entry.2, exitSignal, .exitNotice, true⟩, []⟩ := by
    intro entries
    induction entries with
    | nil => simp
    | cons entry entries ih =>
        intro attempts
        have one : ((⟨attempts, []⟩ : Wire).send entry.2 exitSignal .exitNotice).2 =
            ⟨attempts ++ [⟨entry.2, exitSignal, .exitNotice, true⟩], []⟩ := rfl
        rw [List.foldl_cons, one, ih, List.append_assoc, List.map_cons, List.singleton_append]
  rw [serverExit, sent]
  rfl

end Os2018.Whatsapp
