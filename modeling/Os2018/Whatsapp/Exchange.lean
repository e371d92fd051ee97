import Os2018.Whatsapp.Descriptors

/-!
# What `send` writes, whatever fails

Every call of `send_data` may fail, and `send` stops at the first write to a
recipient that does. So the writes are those to some of the recipients in turn,
each with both frames, and perhaps a last one that was cut short (`ChatAll`).
Two clients never share a descriptor, so what a descriptor gets is what its
client gets (`send_exchange`).
-/

set_option autoImplicit false

namespace Os2018.Whatsapp

open Transition

/-! ## Statement -/

/-- The frames that the server tries to write to a descriptor. -/
def framesAt (fd : Int) (attempts : List Attempt) : List CppString :=
  (attempts.filter fun attempt => attempt.fd = fd).map Attempt.frame

/-- The frames of a chat message. -/
def chatFrames (client : Client) (message : CppString) : List CppString :=
  [sendQue, chatText client message]

/-- A message can be sent there: to a client, or to a group of the sender. -/
def IsTarget (server : WhatsappServer) (client sendTo : CppString) : Prop :=
  sendTo ∈ server.clients.keys ∨
    ∃ members, server.groups.find? sendTo = some members ∧ client ∈ members

/-- The target itself when it is a client, and every other member when it is a
group of the sender. -/
def IsRecipient (server : WhatsappServer) (client sendTo name : CppString) : Prop :=
  sendTo ∈ server.clients.keys ∧ name = sendTo ∨
    ∃ members, server.groups.find? sendTo = some members ∧ client ∈ members ∧
      name ∈ members ∧ name ≠ client

/-- The frames that the client of the name gets. -/
def ClientGets (server : WhatsappServer) (writes : List Attempt) (name : CppString)
    (P : List CppString → Prop) : Prop :=
  ∃ fd, server.clients.find? name = some fd ∧ P (framesAt fd writes)

/-- What `send` writes before its response, and the response. -/
structure Exchange (server : WhatsappServer) (client : Client) (sendTo message : CppString)
    (writes : List Attempt) (response : Attempt) : Prop where
  to_recipients : ∀ attempt ∈ writes, attempt.fd ≠ client.2 ∧
    ∃ name, IsRecipient server client.1 sendTo name ∧
      server.clients.find? name = some attempt.fd
  at_most_once : ∀ name, IsRecipient server client.1 sendTo name →
    ClientGets server writes name (· <+: chatFrames client message)
  all_delivered : (∀ attempt ∈ writes, attempt.delivered = true) →
    ∀ name, IsRecipient server client.1 sendTo name →
      ClientGets server writes name (· = chatFrames client message)
  response_fd : response.fd = client.2
  response_frame : response.frame = successSignal ∨ response.frame = failureSignal
  success_iff : response.frame = successSignal ↔ IsTarget server client.1 sendTo ∧
    (∀ name, IsRecipient server client.1 sendTo name →
      ClientGets server writes name (· = chatFrames client message)) ∧
    ∀ attempt ∈ writes, attempt.delivered = true

/-! ## Recipients -/

theorem mem_recipients {server : WhatsappServer} (registered : Registered server)
    {client sendTo name : CppString} :
    name ∈ recipients server client sendTo ↔ IsRecipient server client sendTo name := by
  rw [recipients, IsRecipient]
  split_ifs with isClient
  · have connected : sendTo ∈ server.clients.keys := SortedMap.contains_iff.mp isClient
    have noGroup := registered.names_apart sendTo connected
    rw [List.mem_singleton]
    constructor
    · exact fun same => .inl ⟨connected, same⟩
    · rintro (⟨-, same⟩ | ⟨members, found, -⟩)
      · exact same
      · exact absurd (SortedMap.mem_keys.mpr ⟨members, found⟩) noGroup
  · have noClient : sendTo ∉ server.clients.keys :=
      fun connected => isClient (SortedMap.contains_iff.mpr connected)
    cases found : server.groups.find? sendTo with
    | none => simp [noClient]
    | some members =>
        by_cases inGroup : client ∈ members
        · simp [noClient, inGroup]
        · simp [noClient, inGroup]

theorem recipients_nil_of_not_target {server : WhatsappServer} {client sendTo : CppString}
    (noTarget : ¬ IsTarget server client sendTo) : recipients server client sendTo = [] := by
  obtain ⟨noClient, noGroup⟩ := not_or.mp noTarget
  rw [recipients, if_neg fun isClient => noClient (SortedMap.contains_iff.mp isClient)]
  cases found : server.groups.find? sendTo with
  | none => rfl
  | some members => exact if_neg fun inGroup => noGroup ⟨members, found, inGroup⟩

/-! ## Writes to one client -/

section Writes

variable {server : WhatsappServer} {command : CppString}

/-- The writes of a chat message to one descriptor, and whether one of them
failed. -/
inductive ChatTo (fd : Int) (command : CppString) : Bool → List Attempt → Prop where
  | marker : ChatTo fd command true [⟨fd, sendQue, .marker, false⟩]
  | text : ChatTo fd command true [⟨fd, sendQue, .marker, true⟩, ⟨fd, command, .chat, false⟩]
  | both : ChatTo fd command false [⟨fd, sendQue, .marker, true⟩, ⟨fd, command, .chat, true⟩]

theorem ChatTo.fd_eq {fd : Int} {failed : Bool} {writes : List Attempt}
    (one : ChatTo fd command failed writes) : ∀ attempt ∈ writes, attempt.fd = fd := by
  cases one <;> simp

theorem ChatTo.delivered_iff {fd : Int} {failed : Bool} {writes : List Attempt}
    (one : ChatTo fd command failed writes) :
    (∀ attempt ∈ writes, attempt.delivered = true) ↔ failed = false := by
  cases one <;> simp

theorem ChatTo.framesAt_self {fd : Int} {failed : Bool} {writes : List Attempt}
    (one : ChatTo fd command failed writes) :
    framesAt fd writes <+: [sendQue, command] ∧
      (failed = false → framesAt fd writes = [sendQue, command]) := by
  cases one <;> simp [framesAt]

theorem framesAt_eq_nil {fd : Int} {writes : List Attempt}
    (elsewhere : ∀ attempt ∈ writes, attempt.fd ≠ fd) : framesAt fd writes = [] := by
  rw [framesAt, List.map_eq_nil_iff, List.filter_eq_nil_iff]
  exact fun attempt member => by simpa using elsewhere attempt member

theorem framesAt_append (fd : Int) (first second : List Attempt) :
    framesAt fd (first ++ second) = framesAt fd first ++ framesAt fd second := by
  simp [framesAt]

theorem forward_chatTo {name : CppString} {fd : Int}
    (found : server.clients.find? name = some fd) (command : CppString)
    (attempts : List Attempt) (outcomes : List Bool) : ∃ failed writes outcomes',
      forward server name command ⟨attempts, outcomes⟩ =
          (failed, server, ⟨attempts ++ writes, outcomes'⟩) ∧
        ChatTo fd command failed writes := by
  cases marker : outcomes.headD true with
  | false =>
      refine ⟨true, [⟨fd, sendQue, .marker, false⟩], outcomes.tail, ?_, .marker⟩
      simp only [forward, clientsIndex_of_find? found, Wire.send, marker]
      rfl
  | true =>
      cases text : outcomes.tail.headD true with
      | false =>
          refine ⟨true, _, outcomes.tail.tail, ?_, .text⟩
          simp only [forward, clientsIndex_of_find? found, Wire.send, marker, text,
            List.append_assoc]
          rfl
      | true =>
          refine ⟨false, _, outcomes.tail.tail, ?_, .both⟩
          simp only [forward, clientsIndex_of_find? found, Wire.send, marker, text,
            List.append_assoc]
          rfl

/-! ## Writes to several clients -/

/-- The writes of a chat message to clients in turn, up to the first failure. -/
inductive ChatAll (server : WhatsappServer) (command : CppString) :
    List CppString → Bool → List Attempt → Prop where
  | nil : ChatAll server command [] false []
  | stop {name : CppString} {names : List CppString} {fd : Int} {writes : List Attempt}
      (found : server.clients.find? name = some fd) (one : ChatTo fd command true writes) :
      ChatAll server command (name :: names) true writes
  | next {name : CppString} {names : List CppString} {fd : Int} {failed : Bool}
      {writes later : List Attempt} (found : server.clients.find? name = some fd)
      (one : ChatTo fd command false writes) (rest : ChatAll server command names failed later) :
      ChatAll server command (name :: names) failed (writes ++ later)

variable {names : List CppString} {failed : Bool} {writes : List Attempt}

theorem ChatAll.to_names (all : ChatAll server command names failed writes) :
    ∀ attempt ∈ writes, ∃ name ∈ names, server.clients.find? name = some attempt.fd := by
  induction all with
  | nil => exact fun _ member => absurd member List.not_mem_nil
  | stop found one =>
      intro attempt member
      exact ⟨_, List.mem_cons_self, one.fd_eq attempt member ▸ found⟩
  | next found one rest ih =>
      intro attempt member
      rcases List.mem_append.mp member with here | later
      · exact ⟨_, List.mem_cons_self, one.fd_eq attempt here ▸ found⟩
      · obtain ⟨name, inNames, isFd⟩ := ih attempt later
        exact ⟨name, List.mem_cons_of_mem _ inNames, isFd⟩

theorem ChatAll.delivered_iff (all : ChatAll server command names failed writes) :
    (∀ attempt ∈ writes, attempt.delivered = true) ↔ failed = false := by
  induction all with
  | nil => simp
  | stop found one => exact one.delivered_iff
  | next found one rest ih =>
      rw [List.forall_mem_append, ih, one.delivered_iff]
      exact and_iff_right rfl

/-- A client gets a part of the two frames from the front, and both of them when
nothing failed. -/
theorem ChatAll.gets (all : ChatAll server command names failed writes) (nodup : names.Nodup)
    (unique : ∀ one other fd, server.clients.find? one = some fd →
      server.clients.find? other = some fd → one = other)
    (connected : ∀ name ∈ names, ∃ fd, server.clients.find? name = some fd) :
    ∀ name ∈ names, ClientGets server writes name (· <+: [sendQue, command]) ∧
      (failed = false → ClientGets server writes name (· = [sendQue, command])) := by
  induction all with
  | nil => exact fun _ member => absurd member List.not_mem_nil
  | @stop first names firstFd writes found one =>
      intro name member
      obtain ⟨fd, isFd⟩ := connected name member
      refine ⟨⟨fd, isFd, ?_⟩, nofun⟩
      by_cases same : fd = firstFd
      · exact same ▸ one.framesAt_self.1
      · rw [framesAt_eq_nil fun attempt inWrites isSame =>
          same (isSame.symm.trans (one.fd_eq attempt inWrites))]
        exact List.nil_prefix
  | @next first names firstFd failed writes later found one rest ih =>
      obtain ⟨notLater, nodupRest⟩ := List.nodup_cons.mp nodup
      have connectedRest : ∀ name ∈ names, ∃ fd, server.clients.find? name = some fd :=
        fun name inRest => connected name (List.mem_cons_of_mem _ inRest)
      intro name member
      rcases List.mem_cons.mp member with rfl | inRest
      · have spared : framesAt firstFd later = [] := by
          refine framesAt_eq_nil fun attempt inLater isSame => notLater ?_
          obtain ⟨other, inNames, isFd⟩ := rest.to_names attempt inLater
          exact unique name other firstFd found (isSame ▸ isFd) ▸ inNames
        have whole : framesAt firstFd (writes ++ later) = [sendQue, command] := by
          rw [framesAt_append, spared, List.append_nil, one.framesAt_self.2 rfl]
        exact ⟨⟨firstFd, found, whole ▸ List.prefix_rfl⟩, fun _ => ⟨firstFd, found, whole⟩⟩
      · have before : ∀ fd, server.clients.find? name = some fd → framesAt fd writes = [] := by
          intro fd isFd
          refine framesAt_eq_nil fun attempt inWrites isSame => notLater ?_
          have sameFd : fd = firstFd := isSame.symm.trans (one.fd_eq attempt inWrites)
          exact unique name first fd isFd (sameFd ▸ found) ▸ inRest
        obtain ⟨⟨fd, isFd, part⟩, complete⟩ := ih nodupRest connectedRest name inRest
        refine ⟨⟨fd, isFd, ?_⟩, fun nothingFailed => ?_⟩
        · rw [framesAt_append, before fd isFd, List.nil_append]
          exact part
        · obtain ⟨fd', isFd', whole⟩ := complete nothingFailed
          refine ⟨fd', isFd', ?_⟩
          rw [framesAt_append, before fd' isFd', List.nil_append]
          exact whole

theorem forwardToMembers_chatAll (client : Client) {members : List CppString}
    (connected : ∀ member ∈ members, member ∈ server.clients.keys) (command : CppString)
    (attempts : List Attempt) (outcomes : List Bool) : ∃ failed writes outcomes',
      forwardToMembers client command members server ⟨attempts, outcomes⟩ =
          (failed, server, ⟨attempts ++ writes, outcomes'⟩) ∧
        ChatAll server command (members.filter (· ≠ client.1)) failed writes := by
  induction members generalizing attempts outcomes with
  | nil => exact ⟨false, [], outcomes, by simp [forwardToMembers], .nil⟩
  | cons clientName members ih =>
      have later := ih fun member inRest => connected member (List.mem_cons_of_mem _ inRest)
      rw [forwardToMembers]
      split_ifs with isSender
      · rw [List.filter_cons_of_neg (by simpa using isSender)]
        exact later attempts outcomes
      rw [List.filter_cons_of_pos (by simpa using isSender)]
      obtain ⟨fd, found⟩ := SortedMap.mem_keys.mp (connected clientName List.mem_cons_self)
      obtain ⟨failed, writes, outcomes', result, one⟩ :=
        forward_chatTo found command attempts outcomes
      rw [result]
      cases failed with
      | true => exact ⟨true, writes, outcomes', rfl, .stop found one⟩
      | false =>
          obtain ⟨failed, rest, outcomes'', result, all⟩ := later (attempts ++ writes) outcomes'
          refine ⟨failed, writes ++ rest, outcomes'', ?_, .next found one all⟩
          rw [← List.append_assoc]
          exact result

end Writes

/-! ## `send` -/

/-- The writes to the recipients come first, and their outcome is the
response. -/
theorem send_chatAll {server : WhatsappServer} (registered : Registered server) (client : Client)
    (sendTo message : CppString) (outcomes : List Bool) : ∃ failed writes response,
      (send server client sendTo message ⟨[], outcomes⟩).2.attempts = writes ++ [response] ∧
        ChatAll server (chatText client message) (recipients server client.1 sendTo) failed
          writes ∧
        response.fd = client.2 ∧
        ((IsTarget server client.1 sendTo ∧ response.frame = sendOutcome failed) ∨
          ¬ IsTarget server client.1 sendTo ∧ response.frame = failureSignal) := by
  by_cases isClient : server.clients.contains sendTo = true
  · have connected : sendTo ∈ server.clients.keys := SortedMap.contains_iff.mp isClient
    obtain ⟨fd, found⟩ := SortedMap.mem_keys.mp connected
    obtain ⟨failed, writes, outcomes', result, one⟩ :=
      forward_chatTo found (chatText client message) [] outcomes
    have all : ChatAll server (chatText client message) [sendTo] failed writes := by
      cases failed with
      | true => exact .stop found one
      | false =>
          rw [← List.append_nil writes]
          exact .next found one .nil
    refine ⟨failed, writes, ⟨client.2, sendOutcome failed, .response, outcomes'.headD true⟩,
      ?_, ?_, rfl, .inl ⟨.inl connected, rfl⟩⟩
    · rw [send, if_pos isClient, result]
      rfl
    · rw [recipients, if_pos isClient]
      exact all
  · have noClient : sendTo ∉ server.clients.keys :=
      fun connected => isClient (SortedMap.contains_iff.mpr connected)
    by_cases isTarget : IsTarget server client.1 sendTo
    · obtain ⟨members, found, inGroup⟩ := isTarget.resolve_left noClient
      obtain ⟨failed, writes, outcomes', result, all⟩ := forwardToMembers_chatAll client
        (registered.group_connected sendTo members found) (chatText client message) [] outcomes
      refine ⟨failed, writes, ⟨client.2, sendOutcome failed, .response, outcomes'.headD true⟩,
        ?_, ?_, rfl, .inl ⟨isTarget, rfl⟩⟩
      · simp only [send, if_neg isClient, found, if_pos inGroup, result]
        rfl
      · simp only [recipients, if_neg isClient, found, if_pos inGroup]
        exact all
    · refine ⟨false, [], ⟨client.2, failureSignal, .response, outcomes.headD true⟩, ?_, ?_, rfl,
        .inr ⟨isTarget, rfl⟩⟩
      · rw [send, if_neg isClient]
        cases found : server.groups.find? sendTo with
        | none => rfl
        | some members =>
            dsimp only
            rw [if_neg fun inGroup => isTarget (.inr ⟨members, found, inGroup⟩)]
            rfl
      · rw [recipients_nil_of_not_target isTarget]
        exact .nil

theorem sendOutcome_eq_success {failed : Bool} :
    sendOutcome failed = successSignal ↔ failed = false := by
  cases failed <;> decide

theorem exchange_of_holds {start : StartDescriptors} {host : Host} (holds : Holds start host)
    {client sendTo : CppString} {fd : Int} (connected : host.server.clients.find? client = some fd)
    (other : sendTo ≠ client) (message : CppString) (outcomes : List Bool) :
    ∃ writes response,
      (send host.server (client, fd) sendTo message ⟨[], outcomes⟩).2.attempts =
          writes ++ [response] ∧
        Exchange host.server (client, fd) sendTo message writes response := by
  have registered := holds.registered
  obtain ⟨failed, writes, response, attempts, all, isFd, ending⟩ :=
    send_chatAll registered (client, fd) sendTo message outcomes
  have isRecipient : ∀ {name}, name ∈ recipients host.server client sendTo ↔
      IsRecipient host.server client sendTo name := mem_recipients registered
  have gets := all.gets (registered.recipients_nodup client sendTo) holds.client_unique
    fun name member => SortedMap.mem_keys.mp (registered.recipients_connected member)
  have sends : response.frame = successSignal ∨ response.frame = failureSignal := by
    rcases ending with ⟨-, frame⟩ | ⟨-, frame⟩
    · rw [frame]
      cases failed with
      | false => exact .inl rfl
      | true => exact .inr rfl
    · exact .inr frame
  refine ⟨writes, response, attempts, ?_, ?_, ?_, isFd, sends, ?_⟩
  · intro attempt member
    obtain ⟨name, inRecipients, isName⟩ := all.to_names attempt member
    refine ⟨fun same => ?_, name, isRecipient.mp inRecipients, isName⟩
    rw [same] at isName
    have isClient : name = client := holds.client_unique name client fd isName connected
    exact sender_not_mem_recipients other (isClient ▸ inRecipients)
  · exact fun name recipient => (gets name (isRecipient.mpr recipient)).1
  · exact fun delivered name recipient =>
      (gets name (isRecipient.mpr recipient)).2 (all.delivered_iff.mp delivered)
  · constructor
    · intro success
      obtain ⟨isTarget, nothingFailed⟩ : IsTarget host.server client sendTo ∧ failed = false := by
        rcases ending with ⟨isTarget, frame⟩ | ⟨-, frame⟩
        · exact ⟨isTarget, sendOutcome_eq_success.mp (frame.symm.trans success)⟩
        · exact absurd (frame.symm.trans success) (by decide)
      exact ⟨isTarget,
        fun name recipient => (gets name (isRecipient.mpr recipient)).2 nothingFailed,
        all.delivered_iff.mpr nothingFailed⟩
    · rintro ⟨isTarget, -, delivered⟩
      rcases ending with ⟨-, frame⟩ | ⟨noTarget, -⟩
      · rw [frame, sendOutcome_eq_success]
        exact all.delivered_iff.mp delivered
      · exact absurd isTarget noTarget

theorem holds_of_reachable {start : StartDescriptors} {host : Host}
    (reachable : (System.ofFunction (hostNext start) (initialHost start)).Reachable host) :
    Holds start host := by
  refine reachable.invariant (P := Holds start) ?_ ?_
  · rintro _ rfl
    exact holds_initial start
  · intro host event after _ holds step
    obtain ⟨accepts, served⟩ := guarded_eq_some.mp step
    exact holds_serveHost holds accepts served

/-- **Delivery.** In every reachable state and whichever writes fail, `send`
changes nothing, writes the two frames of the message in turn to recipients only
and to each at most once, stops at the first failure, and ends with one response
to the sender: success exactly if there is such a target and every recipient got
both frames. -/
theorem send_exchange {start : StartDescriptors} {host : Host}
    (reachable : (System.ofFunction (hostNext start) (initialHost start)).Reachable host)
    {client sendTo : CppString} {fd : Int} (connected : host.server.clients.find? client = some fd)
    (other : sendTo ≠ client) (message : CppString) (outcomes : List Bool) :
    (send host.server (client, fd) sendTo message ⟨[], outcomes⟩).1 = host.server ∧
      ∃ writes response,
        (send host.server (client, fd) sendTo message ⟨[], outcomes⟩).2.attempts =
            writes ++ [response] ∧
          Exchange host.server (client, fd) sendTo message writes response := by
  have holds := holds_of_reachable reachable
  exact ⟨send_server holds.registered (client, fd) sendTo message ⟨[], outcomes⟩,
    exchange_of_holds holds connected other message outcomes⟩

/-- A message to a group of three when the second write fails. -/
theorem send_exchange_cut : ∃ host,
    exec (hostNext standardStart) (initialHost standardStart)
        [(.connect 4 (some "bob".toList), []), (.connect 5 (some "ann".toList), []),
          (.createGroup "ann".toList "g".toList ["bob".toList], [])] = some host ∧
      ∃ writes response,
        (send host.server ("ann".toList, 5) "g".toList "hi".toList ⟨[], [true, false]⟩).2.attempts =
            writes ++ [response] ∧
          Exchange host.server ("ann".toList, 5) "g".toList "hi".toList writes response := by
  refine ⟨_, rfl, ?_⟩
  have run : exec (hostNext standardStart) (initialHost standardStart)
      [(.connect 4 (some "bob".toList), []), (.connect 5 (some "ann".toList), []),
        (.createGroup "ann".toList "g".toList ["bob".toList], [])] = some _ := rfl
  have reachable :
      (System.ofFunction (hostNext standardStart) (initialHost standardStart)).Reachable _ :=
    exec_reachable (.init rfl) run
  exact (send_exchange reachable (by decide +kernel) (by decide) _ _).2

end Os2018.Whatsapp
