import TaceChat.Model.Service
import TaceChat.Proofs.Delivery
import TaceChat.Proofs.Fingers

/-!
# The network is one mail server

A `MailServer` has the messages that have been posted, in one list. `service_refines` says that a
ring whose routing state is exact answers like it: whichever node a message is posted at and
whichever node is polled, a poll has the messages that have been posted to the same key, in their
order, and the background tasks of `Upkeep` in between do not matter. Of the metrics that a node
responds with it says nothing.

`Directory.Represents` relates the two. The owner of a key has the messages of the key, and every
request goes to the owner. Copies at other nodes are never read, because a poll reads them only when
the owner has nothing. Such a poll may not come back, so the polls are for keys that have messages
(`MailServer.FindsMail`).
-/

set_option autoImplicit false

namespace TaceChat

open IdCircle Network

/-! ### The server -/

/-- The posted messages, oldest first, with the strings that they were posted to, and the challenges
that have been issued at each address. -/
structure MailServer where
  posted : List (String × StoredMessage)
  challenges : String → ChallengeMap

/-- A stored message as a poll returns it. -/
def StoredMessage.toPoll (m : StoredMessage) : PollMessage :=
  ⟨m.«from», m.ciphertext, m.nonce, m.timestamp⟩

namespace MailServer

variable (codecs : Codecs) (server : MailServer)

/-- The messages that have been posted to a key. -/
def mailbox (key : NodeId) : List StoredMessage :=
  (server.posted.filter fun p => generateKey codecs.sha1 p.1 = key).map Prod.snd

/-- The response to a posted message, and the server after it. -/
def post (seconds : ℕ) : Except BodyError MessagePayload → Response × MailServer
  | .error .unreadable =>
    (⟨.badRequest, jsonObject "error" "Failed to read request body"⟩, server)
  | .error .invalidJson => (⟨.badRequest, jsonObject "error" "Invalid JSON payload"⟩, server)
  | .ok payload =>
    if (codecs.serialize (storedMessage payload seconds)).isSome then
      (messageReceived,
        { server with posted := server.posted ++ [(payload.to, storedMessage payload seconds)] })
    else
      (⟨.internalServerError, "\x7b\"error\": \"Failed to serialize message\"\x7d"⟩, server)

/-- The server after a poll at an address has used up its challenge. -/
def withChallenges (address : String) (challenges : ChallengeMap) : MailServer :=
  { server with challenges := Function.update server.challenges address challenges }

/-- The response to a poll, and the server after it. Its challenge is used up, whatever the
response. -/
def poll (address : String) : Except BodyError PollRequestPayload → Response × MailServer
  | .error .unreadable =>
    (⟨.badRequest, jsonObject "error" "Failed to read request body"⟩, server)
  | .error .invalidJson => (⟨.badRequest, jsonObject "error" "Invalid JSON payload"⟩, server)
  | .ok payload =>
    let (valid, challenges) := verifyChallenge codecs.verify payload (server.challenges address)
    let server' := server.withChallenges address challenges
    if valid then
      let messages := server.mailbox codecs (generateKey codecs.sha1 payload.publicKey)
      (⟨.ok, codecs.messagesJson (messages.map StoredMessage.toPoll)⟩, server')
    else
      (⟨.unauthorized, jsonObject "error" "Invalid challenge response"⟩, server')

/-- The server after a request at an address. -/
def afterRequest (address : String) (s : Surroundings) (request : HttpRequest) : MailServer :=
  match route request.method request.path with
  | .challenge => server.withChallenges address
      (getChallengeHandler request.query s.nonce s.instant (server.challenges address)).2
  | .message => (server.post codecs s.seconds (readBody codecs.messagePayload request.body)).2
  | .poll => (server.poll codecs address (readBody codecs.pollPayload request.body)).2
  | _ => server

/-- The server after an event. It has no background tasks. -/
def after (address : String) : ServiceEvent → MailServer
  | .upkeep _ => server
  | .request s request => server.afterRequest codecs address s request

/-- The response is one that the server may give. It names any member to a client that asks for a
node, and it says nothing of metrics. -/
def Answers (D : Directory) (address : String) (s : Surroundings) (request : HttpRequest)
    (response : HttpResponse) : Prop :=
  match route request.method request.path with
  | .ping => response = pingResponse
  | .connect => ∃ i ∈ D.ids, response = ⟨.of .ok, jsonObject "node" (D.info i).apiAddress⟩
  | .challenge => response =
      (getChallengeHandler request.query s.nonce s.instant (server.challenges address)).1.http
  | .message => response =
      (server.post codecs s.seconds (readBody codecs.messagePayload request.body)).1.http
  | .poll => response =
      (server.poll codecs address (readBody codecs.pollPayload request.body)).1.http
  | .metrics => True
  | .preflight => response = ⟨.of .ok, ""⟩
  | .notFound => response = notFoundResponse

/-- The outcome of an event: a background task has no response. -/
def Outcome (D : Directory) (address : String) : ServiceEvent → Option HttpResponse → Prop
  | .upkeep _, outcome => outcome = none
  | .request s request, outcome =>
    ∃ response, outcome = some response ∧ server.Answers codecs D address s request response

/-- The outcomes of the events, one after the other. -/
def Run (D : Directory) : MailServer → List (String × ServiceEvent) →
    List (Option HttpResponse) → Prop
  | _, [], outcomes => outcomes = []
  | server, (address, event) :: events, outcomes =>
    ∃ outcome rest, outcomes = outcome :: rest ∧ server.Outcome codecs D address event outcome ∧
      Run D (server.after codecs address event) events rest

/-- A request that is a poll and passes the check finds a message. -/
def FindsMail (address : String) (request : HttpRequest) : Prop :=
  route request.method request.path = .poll →
    ∀ payload, readBody codecs.pollPayload request.body = .ok payload →
      (verifyChallenge codecs.verify payload (server.challenges address)).1 = true →
        server.mailbox codecs (generateKey codecs.sha1 payload.publicKey) ≠ []

/-- Whether the server is ready for an event at an address. A background task is always fine. -/
def Ready (address : String) : ServiceEvent → Prop
  | .upkeep _ => True
  | .request _ request => server.FindsMail codecs address request

/-- Every poll of the events that passes the check finds a message. -/
def AllReady : MailServer → List (String × ServiceEvent) → Prop
  | _, [] => True
  | server, (address, event) :: events =>
    server.Ready codecs address event ∧ AllReady (server.after codecs address event) events

end MailServer

/-- The keys that an event looks up. The fingers that a background task looks up are apart. -/
def ServiceEvent.keys (codecs : Codecs) : ServiceEvent → List NodeId
  | .upkeep _ => []
  | .request s httpRequest =>
    match route httpRequest.method httpRequest.path with
    | .connect => s.buffers.toList.map codecs.sha1
    | .message => ((readBody codecs.messagePayload httpRequest.body).toOption.map fun payload =>
        generateKey codecs.sha1 payload.to).toList
    | .poll => ((readBody codecs.pollPayload httpRequest.body).toOption.map fun payload =>
        generateKey codecs.sha1 payload.publicKey).toList
    | _ => []

namespace Directory

variable {D : Directory} {net net' : Network Unit} {depth : ℕ} {q key : NodeId}

/-! ### Stores and reads -/

/-- A message is stored once at the owner of its key, and other keys are left alone. -/
theorem LinkedRing.storeAtResponsible (h : D.LinkedRing net) (hq : q ∈ D.ids)
    (hfound : D.Found net.node q key) (value : Value) :
    Returns (TaceChat.storeAtResponsible (env reliable (depth + 2) (D.info q).address) key value)
      net fun r net' => r = messageReceived ∧ ChangesData (· = key) net net' ∧
        (D.at' net'.node (owner D.ids key)).valuesAt key
          = (D.at' net.node (owner D.ids key)).valuesAt key ++ [value] := by
  have ho : owner D.ids key ∈ D.ids := owner_mem ⟨q, hq⟩ key
  refine (h.findSuccessor hq hfound).bind ?_
  rintro _ net ⟨rfl, rfl⟩
  simp only [returns_bind, returns_safeLock, returns_ite, env_node, env_callNode, h.info_eq hq,
    D.info_id]
  refine ⟨fun heq => ?_, fun _ => ?_⟩
  · have hstore : Returns
        (TaceChat.store (env reliable (depth + 2) (D.info q).address) key value) net
        fun _ net' => ChangesData (· = key) net net' ∧
          (D.at' net'.node q).valuesAt key = (D.at' net.node q).valuesAt key ++ [value] :=
      (store_changesData (P := (· = key)) rfl value).and
        (h.toServes.store_appends_self hq key value)
    rw [heq]
    exact hstore.mono fun _ _ hr => returns_pure.mpr ⟨rfl, hr⟩
  · have hstore : Returns (TaceChat.store
        (env reliable (depth + 1) (D.info (owner D.ids key)).address) key value) net
        fun _ net' => ChangesData (· = key) net net' ∧
          (D.at' net'.node (owner D.ids key)).valuesAt key
            = (D.at' net.node (owner D.ids key)).valuesAt key ++ [value] :=
      (store_changesData (P := (· = key)) rfl value).and
        (h.toServes.store_appends_self ho key value)
    rw [returns_call_reliable (h.listening _ ho)]
    simp only [handleConnection.eq_def, returns_bind, returns_pure]
    exact hstore.mono fun _ _ hr => ⟨rfl, hr⟩

/-- A node answers from its own data. -/
theorem retrieve_own {a : String} {values : List Value}
    (h : (net.node a).data.lookup key = some values) :
    Returns (retrieve (env reliable depth a) key) net
      fun r net' => r = some values ∧ net' = net := by
  simp only [retrieve, returns_bind, returns_safeLock, env_node, h]
  exact returns_pure.mpr ⟨rfl, rfl⟩

/-- What the owner of a key has under it is read at every node. -/
theorem LinkedRing.retrieveAtResponsible (h : D.LinkedRing net) (hq : q ∈ D.ids)
    (hfound : D.Found net.node q key) {values : List Value}
    (hvalues : (D.at' net.node (owner D.ids key)).data.lookup key = some values) :
    Returns (TaceChat.retrieveAtResponsible (env reliable (depth + 2) (D.info q).address) key) net
      fun r net' => r = some values ∧ net' = net := by
  have ho : owner D.ids key ∈ D.ids := owner_mem ⟨q, hq⟩ key
  refine (h.findSuccessor hq hfound).bind ?_
  rintro _ net ⟨rfl, rfl⟩
  simp only [returns_bind, returns_safeLock, returns_ite, env_node, env_callNode, h.info_eq hq,
    D.info_id]
  refine ⟨fun heq => ?_, fun _ => ?_⟩
  · rw [heq] at hvalues
    exact retrieve_own hvalues
  · rw [returns_call_reliable (h.listening _ ho)]
    simp only [handleConnection.eq_def, returns_bind]
    refine (retrieve_own hvalues).mono ?_
    rintro _ net ⟨rfl, rfl⟩
    exact returns_pure.mpr (returns_pure.mpr ⟨rfl, rfl⟩)

/-- The first attempt to name a node succeeds. -/
theorem LinkedRing.connectHandler (h : D.LinkedRing net) (hq : q ∈ D.ids) (codecs : Codecs)
    {buffers : List (List UInt8)} (hne : buffers ≠ [])
    (hfound : ∀ key ∈ buffers.map codecs.sha1, D.Found net.node q key) :
    Returns (TaceChat.connectHandler (env reliable (depth + 2) (D.info q).address) codecs buffers)
      net fun r net' =>
        (∃ i ∈ D.ids, r = ⟨.of .ok, jsonObject "node" (D.info i).apiAddress⟩) ∧ net' = net := by
  obtain ⟨buffer, rest, rfl⟩ := List.exists_cons_of_ne_nil hne
  have ho : owner D.ids (codecs.sha1 buffer) ∈ D.ids := owner_mem ⟨q, hq⟩ _
  rw [TaceChat.connectHandler]
  refine (h.findSuccessor hq (hfound _ List.mem_cons_self)).bind ?_
  rintro _ net ⟨rfl, rfl⟩
  simp only [returns_bind, returns_safeLock, returns_ite, env_node, env_callNode, returns_pure]
  refine ⟨fun _ => ⟨⟨_, ho, rfl⟩, trivial⟩, fun _ => ?_⟩
  rw [call_read_answered rfl rfl (h.listening _ ho)]
  exact returns_pure.mpr ⟨⟨_, ho, rfl⟩, rfl⟩

/-- The metrics are read. -/
theorem metricsHandler_same {a : String} (codecs : Codecs) :
    Returns (metricsHandler (env reliable depth a) codecs) net fun _ net' => net' = net := by
  simp only [metricsHandler, returns_bind, returns_safeLock, env_node]
  split
  · exact returns_pure.mpr rfl
  · split <;> exact returns_pure.mpr rfl

/-! ### The refinement -/

/-- The ring has the mail of the server: the owner of each key has the messages of the key. -/
structure Represents (D : Directory) (codecs : Codecs) (F : NodeId → List NodeInfo → Prop)
    (server : MailServer) (net : Network Unit) : Prop extends D.LinkedRing net where
  fingers : ∀ i ∈ D.ids, F i (D.fingersAt net i)
  serialized : ∀ p ∈ server.posted, (codecs.serialize p.2).isSome
  mail : ∀ key, (D.at' net.node (owner D.ids key)).valuesAt key
    = (server.mailbox codecs key).filterMap codecs.serialize

variable {codecs : Codecs} {F : NodeId → List NodeInfo → Prop} {server : MailServer}
  {address : String}

/-- The challenges are not part of the mail. -/
theorem Represents.withChallenges (h : D.Represents codecs F server net)
    (challenges : ChallengeMap) :
    D.Represents codecs F (server.withChallenges address challenges) net :=
  ⟨h.toLinkedRing, h.fingers, h.serialized, h.mail⟩

/-- A posted message. -/
theorem Represents.posted (h : D.Represents codecs F server net) {recipient : String}
    {m : StoredMessage} {value : Value} (hvalue : codecs.serialize m = some value)
    (hdata : ChangesData (· = generateKey codecs.sha1 recipient) net net')
    (hmail : (D.at' net'.node (owner D.ids (generateKey codecs.sha1 recipient))).valuesAt
        (generateKey codecs.sha1 recipient)
      = (D.at' net.node (owner D.ids (generateKey codecs.sha1 recipient))).valuesAt
        (generateKey codecs.sha1 recipient) ++ [value]) :
    D.Represents codecs F { server with posted := server.posted ++ [(recipient, m)] } net' := by
  refine ⟨h.changesData hdata, fun i hi => ?_, fun p hp => ?_, fun key => ?_⟩
  · rw [LinkedRing.fingersAt_changesData hdata]
    exact h.fingers i hi
  · rcases List.mem_append.mp hp with hold | hnew
    · exact h.serialized p hold
    · rw [List.mem_singleton.mp hnew]
      exact Option.isSome_iff_exists.mpr ⟨value, hvalue⟩
  · have hbox :
        MailServer.mailbox codecs { server with posted := server.posted ++ [(recipient, m)] } key =
          server.mailbox codecs key ++
            if generateKey codecs.sha1 recipient = key then [m] else [] := by
      simp only [MailServer.mailbox, List.filter_append, List.map_append, List.filter_singleton]
      by_cases hkey : generateKey codecs.sha1 recipient = key <;> simp [hkey]
    rw [hbox, List.filterMap_append, ← h.mail key]
    by_cases hkey : generateKey codecs.sha1 recipient = key
    · subst hkey
      rw [hmail, if_pos rfl]
      simp [hvalue]
    · -- The owner of another key keeps what it has under that key.
      obtain ⟨d, hd, hlookup⟩ := hdata.2 (D.info (owner D.ids key)).address
      rw [if_neg hkey, List.filterMap_nil, List.append_nil, at', at', hd]
      exact congrArg (fun l => l.getD []) (hlookup key (Ne.symm hkey))

/-- What is read of the mail of a key. -/
theorem Represents.filterMap_mail (h : D.Represents codecs F server net)
    (hround : ∀ m value, codecs.serialize m = some value → codecs.deserialize value = some m)
    (key : NodeId) :
    ((server.mailbox codecs key).filterMap codecs.serialize).filterMap
        (fun data => (codecs.deserialize data).map StoredMessage.toPoll)
      = (server.mailbox codecs key).map StoredMessage.toPoll := by
  rw [List.filterMap_filterMap, ← List.filterMap_eq_map]
  refine List.filterMap_congr fun m hm => ?_
  obtain ⟨p, hp, rfl⟩ := List.mem_map.mp hm
  obtain ⟨value, hvalue⟩ := Option.isSome_iff_exists.mp
    (h.serialized p (List.mem_filter.mp hp).1)
  rw [hvalue, Option.bind_some, hround _ _ hvalue]
  rfl

/-- The owner of a key that has mail has it under the key. -/
theorem Represents.lookup (h : D.Represents codecs F server net)
    (hne : server.mailbox codecs key ≠ []) :
    (D.at' net.node (owner D.ids key)).data.lookup key
      = some ((server.mailbox codecs key).filterMap codecs.serialize) := by
  have hmail := h.mail key
  cases hlookup : (D.at' net.node (owner D.ids key)).data.lookup key with
  | some values =>
    rw [ChordNode.valuesAt, hlookup] at hmail
    exact congrArg some hmail
  | none =>
    rw [ChordNode.valuesAt, hlookup] at hmail
    -- The first message of the mailbox has a value.
    obtain ⟨m, hm⟩ := List.exists_mem_of_ne_nil _ hne
    obtain ⟨p, hp, rfl⟩ := List.mem_map.mp hm
    obtain ⟨value, hvalue⟩ := Option.isSome_iff_exists.mp
      (h.serialized p (List.mem_filter.mp hp).1)
    have hmem : value ∈ (server.mailbox codecs key).filterMap codecs.serialize :=
      List.mem_filterMap.mpr ⟨p.2, hm, hvalue⟩
    rw [← hmail] at hmem
    cases hmem

/-- A posted message leaves the challenges. -/
theorem post_challenges (codecs : Codecs) (server : MailServer) (seconds : ℕ)
    (request : Except BodyError MessagePayload) :
    (server.post codecs seconds request).2.challenges = server.challenges := by
  unfold MailServer.post
  split
  · rfl
  · rfl
  · split <;> rfl

/-- A posted message reaches the server's list. -/
theorem Represents.message (h : D.Represents codecs F server net) (hq : q ∈ D.ids)
    (seconds : ℕ) (request : Except BodyError MessagePayload) (hfound : ∀ payload,
      request = .ok payload → D.Found net.node q (generateKey codecs.sha1 payload.to)) :
    Returns (messageHandler (env reliable (depth + 2) (D.info q).address) codecs.sha1
      codecs.serialize seconds request) net fun r net' =>
        r = (server.post codecs seconds request).1 ∧
          D.Represents codecs F (server.post codecs seconds request).2 net' := by
  cases request with
  | error e =>
    cases e <;> exact returns_pure.mpr ⟨rfl, h⟩
  | ok payload =>
    cases hvalue : codecs.serialize (storedMessage payload seconds) with
    | none =>
      rw [messageHandler_unserialized hvalue, MailServer.post, hvalue]
      exact returns_pure.mpr ⟨rfl, h⟩
    | some value =>
      rw [messageHandler_ok hvalue, MailServer.post, hvalue]
      refine (h.storeAtResponsible hq (hfound payload rfl) value).mono ?_
      rintro _ net' ⟨rfl, hdata, hmail⟩
      exact ⟨rfl, h.posted hvalue hdata hmail⟩

/-- A poll gets what the server has. -/
theorem Represents.poll (h : D.Represents codecs F server net)
    (hround : ∀ m value, codecs.serialize m = some value → codecs.deserialize value = some m)
    (hq : q ∈ D.ids) (request : Except BodyError PollRequestPayload)
    (hfound : ∀ payload, request = .ok payload →
      D.Found net.node q (generateKey codecs.sha1 payload.publicKey))
    (hready : ∀ payload, request = .ok payload →
      (verifyChallenge codecs.verify payload (server.challenges address)).1 = true →
        server.mailbox codecs (generateKey codecs.sha1 payload.publicKey) ≠ []) :
    Returns (pollHandler (env reliable (depth + 2) (D.info q).address) codecs.sha1
      codecs.deserialize codecs.messagesJson codecs.verify (server.challenges address) request) net
      fun r net' => r.1 = (server.poll codecs address request).1 ∧
        r.2 = (server.poll codecs address request).2.challenges address ∧
        D.Represents codecs F (server.poll codecs address request).2 net' := by
  cases request with
  | error e =>
    cases e <;> exact returns_pure.mpr ⟨rfl, rfl, h⟩
  | ok payload =>
    have hready := hready payload rfl
    rw [MailServer.poll]
    simp only [pollHandler]
    generalize verifyChallenge codecs.verify payload (server.challenges address) = result
      at hready ⊢
    obtain ⟨valid, challenges⟩ := result
    cases valid with
    | false =>
      refine returns_pure.mpr ⟨rfl, ?_, h.withChallenges challenges⟩
      exact (Function.update_self address challenges server.challenges).symm
    | true =>
      refine (h.retrieveAtResponsible hq (hfound payload rfl) (h.lookup (hready rfl))).bind ?_
      rintro _ net ⟨rfl, rfl⟩
      refine returns_pure.mpr ⟨?_, ?_, h.withChallenges challenges⟩
      · exact congrArg (fun messages => (⟨.ok, codecs.messagesJson messages⟩ : Response))
          (h.filterMap_mail hround _)
      · exact (Function.update_self address challenges server.challenges).symm

/-- A request gets an answer that the server may give. -/
theorem Represents.handler (h : D.Represents codecs F server net)
    (hround : ∀ m value, codecs.serialize m = some value → codecs.deserialize value = some m)
    (hq : q ∈ D.ids) (s : Surroundings) (request : HttpRequest)
    (hfound : ∀ key ∈ ServiceEvent.keys codecs (.request s request), D.Found net.node q key)
    (hready : server.FindsMail codecs (D.info q).address request) :
    Returns (TaceChat.handler (env reliable (depth + 2) (D.info q).address) codecs s request
      (server.challenges (D.info q).address)) net fun r net' =>
        server.Answers codecs D (D.info q).address s request r.1 ∧
          r.2 = (server.afterRequest codecs (D.info q).address s request).challenges
            (D.info q).address ∧
          D.Represents codecs F (server.afterRequest codecs (D.info q).address s request) net' := by
  unfold TaceChat.handler MailServer.Answers MailServer.afterRequest
  rw [ServiceEvent.keys] at hfound
  cases hroute : TaceChat.route request.method request.path with
  | ping => exact returns_pure.mpr ⟨rfl, rfl, h⟩
  | preflight => exact returns_pure.mpr ⟨rfl, rfl, h⟩
  | notFound => exact returns_pure.mpr ⟨rfl, rfl, h⟩
  | challenge =>
    refine returns_pure.mpr ⟨rfl, ?_, h.withChallenges _⟩
    exact (Function.update_self (D.info q).address _ server.challenges).symm
  | connect =>
    have hne : s.buffers.toList ≠ [] := by
      intro heq
      have hlength := congrArg List.length heq
      rw [Vector.length_toList] at hlength
      cases hlength
    rw [hroute] at hfound
    refine (h.connectHandler hq codecs hne hfound).bind ?_
    rintro r net ⟨hr, rfl⟩
    exact returns_pure.mpr ⟨hr, rfl, h⟩
  | message =>
    have hto : ∀ payload, readBody codecs.messagePayload request.body = .ok payload →
        D.Found net.node q (generateKey codecs.sha1 payload.to) := by
      intro payload hpayload
      rw [hroute, hpayload] at hfound
      exact hfound _ (List.mem_singleton_self _)
    refine (h.message hq s.seconds _ hto).bind ?_
    rintro _ net' ⟨rfl, h'⟩
    exact returns_pure.mpr ⟨rfl, congrFun (post_challenges codecs server _ _).symm _, h'⟩
  | poll =>
    have hkey : ∀ payload, readBody codecs.pollPayload request.body = .ok payload →
        D.Found net.node q (generateKey codecs.sha1 payload.publicKey) := by
      intro payload hpayload
      rw [hroute, hpayload] at hfound
      exact hfound _ (List.mem_singleton_self _)
    refine (h.poll hround hq _ hkey (hready hroute)).bind ?_
    rintro ⟨_, _⟩ net' ⟨rfl, rfl, h'⟩
    exact returns_pure.mpr ⟨rfl, rfl, h'⟩
  | metrics =>
    refine (metricsHandler_same codecs).bind ?_
    rintro r net rfl
    exact returns_pure.mpr ⟨trivial, rfl, h⟩

/-- A request changes the challenges of its own node only. -/
theorem afterRequest_challenges (codecs : Codecs) (server : MailServer) (address : String)
    (s : Surroundings) (request : HttpRequest) :
    Function.update server.challenges address
        ((server.afterRequest codecs address s request).challenges address)
      = (server.afterRequest codecs address s request).challenges := by
  have hupdate : ∀ challenges, Function.update server.challenges address
      ((server.withChallenges address challenges).challenges address)
        = (server.withChallenges address challenges).challenges := by
    intro challenges
    simp only [MailServer.withChallenges, Function.update_self]
  have hsame : Function.update server.challenges address (server.challenges address)
      = server.challenges := Function.update_eq_self _ _
  unfold MailServer.afterRequest
  split
  · exact hupdate _
  · rw [post_challenges]
    exact hsame
  · unfold MailServer.poll
    split
    · exact hsame
    · exact hsame
    · dsimp only
      split <;> exact hupdate _
  · exact hsame

variable {keys : NodeId → NodeId → Prop} {draws : NodeId → ℕ → Prop}

/-- A background task is none of the server's business. -/
theorem Represents.upkeep (h : D.Represents codecs F server net)
    (hlead : D.LeadsLookups F keys draws) (hq : q ∈ D.ids) {task : Upkeep}
    (htask : ∀ k, task = .fixFingers k → draws q k) :
    Returns (task.run (env reliable (depth + 1) (D.info q).address)) net fun _ net' =>
      D.Represents codecs F server net' := by
  refine (hlead.upkeep h.toLinkedRing h.fingers hq htask).mono ?_
  rintro - net' ⟨hring, hkeeps, hfingers⟩
  refine ⟨hring, hfingers, h.serialized, fun key => ?_⟩
  rw [← h.mail key, ChordNode.valuesAt, ChordNode.valuesAt, at', at', hkeeps.data]

/-- The events, one after the other. -/
theorem Represents.run (h : D.Represents codecs F server net)
    (hlead : D.LeadsLookups F keys draws)
    (hround : ∀ m value, codecs.serialize m = some value → codecs.deserialize value = some m)
    {events : List (String × ServiceEvent)}
    (hmem : ∀ e ∈ events, ∃ q ∈ D.ids, e.1 = (D.info q).address ∧
      (∀ key ∈ e.2.keys codecs, keys q key) ∧ ∀ k, e.2 = .upkeep (.fixFingers k) → draws q k)
    (hready : server.AllReady codecs events) :
    Returns (serveAll codecs (depth + 2) events server.challenges) net
      fun outcomes _ => server.Run codecs D events outcomes := by
  induction events generalizing server net with
  | nil => exact returns_pure.mpr rfl
  | cons e events ih =>
    obtain ⟨⟨q, hq, hqe, hkeys, hfinger⟩, hrest⟩ := List.forall_mem_cons.mp hmem
    obtain ⟨address, event⟩ := e
    obtain rfl : address = (D.info q).address := hqe
    obtain ⟨hnow, hlater⟩ := hready
    cases event with
    | upkeep task =>
      rw [serveAll]
      refine (h.upkeep hlead hq fun k hk => hfinger k (congrArg _ hk)).bind ?_
      rintro - net' h'
      refine (ih h' hrest hlater).bind fun outcomes _ hrun => ?_
      exact returns_pure.mpr ⟨none, outcomes, rfl, rfl, hrun⟩
    | request s request =>
      rw [serveAll]
      refine (h.handler hround hq s request (fun key hkey =>
        hlead.found net h.toLinkedRing h.fingers q hq key (hkeys key hkey)) hnow).bind ?_
      rintro ⟨response, challenges⟩ net' ⟨hanswer, rfl, h'⟩
      dsimp only
      rw [afterRequest_challenges]
      refine (ih h' hrest hlater).bind fun outcomes _ hrun => ?_
      exact returns_pure.mpr ⟨some response, outcomes, rfl, ⟨response, rfl, hanswer⟩, hrun⟩

end Directory

/-- A mail server that nobody has used. -/
def MailServer.empty : MailServer := ⟨[], fun _ _ => none⟩

namespace Directory

variable {D : Directory} {net : Network Unit} {depth : ℕ}

/-- A ring without data, from its first event on. -/
theorem LinkedRing.serveAll {codecs : Codecs} {F : NodeId → List NodeInfo → Prop}
    {keys : NodeId → NodeId → Prop} {draws : NodeId → ℕ → Prop}
    (h : D.LinkedRing net) (hlead : D.LeadsLookups F keys draws)
    (hfingers : ∀ i ∈ D.ids, F i (D.fingersAt net i))
    (hempty : ∀ i ∈ D.ids, ∀ key, (D.at' net.node i).valuesAt key = [])
    (hround : ∀ m value, codecs.serialize m = some value → codecs.deserialize value = some m)
    {events : List (String × ServiceEvent)}
    (hevents : ∀ e ∈ events, ∃ q ∈ D.ids, e.1 = (D.info q).address ∧
      (∀ key ∈ e.2.keys codecs, keys q key) ∧ ∀ k, e.2 = .upkeep (.fixFingers k) → draws q k)
    (hready : MailServer.AllReady codecs .empty events) :
    Returns (TaceChat.serveAll codecs (depth + 2) events fun _ _ => none) net
      fun outcomes _ => MailServer.Run codecs D .empty events outcomes := by
  cases events with
  | nil => exact returns_pure.mpr rfl
  | cons e events =>
    -- There is a node, so every key has an owner.
    obtain ⟨q, hq, -⟩ := hevents e List.mem_cons_self
    have hstart : D.Represents codecs F .empty net := by
      refine ⟨h, hfingers, fun p hp => ?_, fun key => ?_⟩
      · cases hp
      · exact hempty _ (owner_mem ⟨q, hq⟩ key) key
    exact hstart.run hlead hround hevents hready

end Directory

end TaceChat
