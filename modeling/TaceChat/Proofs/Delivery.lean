import TaceChat.Model.Api
import TaceChat.Model.Framing
import TaceChat.Proofs.Appends
import TaceChat.Proofs.IdNetwork
import TaceChat.Proofs.Nesting

/-!
# Local and remote delivery

`readMessage_eq` is the read loop: it gives back the bytes that were written when they fit in
`MAX_MESSAGE_SIZE`, however they are cut into reads, and nothing otherwise. So a request is received
exactly when its encoding fits (`receivedRequest_eq_iff`), and a call makes one attempt at such a
request and three in vain at a larger one (`callNodeWithRetry_framed`).

`messageHandler_agrees` compares a message that is posted at the responsible node, which stores it
directly, with the same message posted at another node, which sends it over. They agree for every
message that fits. `messageHandler_oversized` says what happens otherwise.
-/

set_option autoImplicit false

namespace TaceChat

/-! ### The read loop -/

/-- The cut into reads does not matter: the loop returns all the bytes when they fit. -/
theorem readMessage_eq {chunks : List (List UInt8)} (hne : ∀ chunk ∈ chunks, chunk ≠ []) :
    ∀ buffer : List UInt8, buffer.length ≤ maxMessageSize → readMessage buffer chunks =
      if (buffer ++ chunks.flatten).length ≤ maxMessageSize then some (buffer ++ chunks.flatten)
      else none := by
  induction chunks with
  | nil =>
    intro buffer hbuffer
    rw [List.flatten_nil, List.append_nil, if_pos hbuffer]
    rfl
  | cons chunk rest ih =>
    intro buffer _
    have hrest : ∀ c ∈ rest, c ≠ [] := fun c hc => hne c (List.mem_cons_of_mem _ hc)
    rw [readMessage, if_neg (hne chunk List.mem_cons_self), List.flatten_cons]
    by_cases hlarge : maxMessageSize < buffer.length + chunk.length
    · -- The bytes so far are too many, so all of them are.
      have htotal : ¬(buffer ++ (chunk ++ rest.flatten)).length ≤ maxMessageSize := by
        simp only [List.length_append]
        omega
      rw [if_pos hlarge, if_neg htotal]
    · have hnext : (buffer ++ chunk).length ≤ maxMessageSize := by
        rw [List.length_append]
        omega
      rw [if_neg hlarge, ih hrest _ hnext, List.append_assoc]

section

variable {encode : DhtMessage → Option (List UInt8)} {decode : List UInt8 → Option DhtMessage}
  (arrival : Arrival)

/-- What the called node makes of the encoded request. -/
theorem receivedRequest_eq {message : DhtMessage} {encoded : List UInt8}
    (hencode : encode message = some encoded) :
    receivedRequest encode decode arrival message =
      if encoded.length ≤ maxMessageSize then decode encoded else none := by
  have hread := readMessage_eq (arrival.chunk_ne_nil encoded) [] (Nat.zero_le _)
  rw [List.nil_append, arrival.flatten_chunks] at hread
  rw [receivedRequest, hencode]
  show (readMessage [] (arrival.chunks encoded)).bind decode = _
  rw [hread]
  split <;> rfl

/-- A request is received as it was sent exactly when its encoding fits. -/
theorem receivedRequest_eq_iff
    (hround : ∀ m encoded, encode m = some encoded → decode encoded = some m)
    (message : DhtMessage) :
    receivedRequest encode decode arrival message = some message ↔
      ∃ encoded, encode message = some encoded ∧ encoded.length ≤ maxMessageSize := by
  cases hencode : encode message with
  | none => simp [receivedRequest, hencode]
  | some encoded =>
    rw [receivedRequest_eq arrival hencode, hround message encoded hencode]
    simp

/-- A call on a network without failures: one attempt that the peer handles, or three that it does
not. -/
theorem callNodeWithRetry_framed (message response : DhtMessage) :
    let attempt := framedAttempt encode decode arrival message response
    let received := receivedRequest encode decode arrival message = some message
    (received → callNodeWithRetry (fun _ => attempt) = (some response, [attempt]) ∧
        attempt.handled = true) ∧
      (¬received → callNodeWithRetry (fun _ => attempt) = (none, [attempt, attempt, attempt]) ∧
        attempt.handled = false) := by
  intro attempt received
  have hcall (r : Option DhtMessage) (hr : callNodeInternal attempt = r) :
      callNodeWithRetry (fun _ => attempt) =
        (r, if r.isSome then [attempt] else [attempt, attempt, attempt]) := by
    cases r <;> simp [callNodeWithRetry, callRetries, retryLoop, hr]
  constructor
  · intro h
    have hsome : (encode message).isSome = true :=
      (attempt.connected_of_handled (decide_eq_true h)).2.2
    have hr : callNodeInternal attempt = some response := by
      simp [callNodeInternal, attempt, framedAttempt, hsome, show _ = _ from h]
    exact ⟨hcall _ hr, decide_eq_true h⟩
  · intro h
    have hr : callNodeInternal attempt = none := by
      simp [callNodeInternal, attempt, framedAttempt, show ¬_ = _ from h]
    exact ⟨hcall _ hr, decide_eq_false h⟩

end

namespace Network

variable {encode : DhtMessage → Option (List UInt8)} {decode : List UInt8 → Option DhtMessage}
  {arrival : Arrival} {net : Network Unit} {depth : ℕ} {ax ay : String} {key : NodeId}

/-! ### One store at the responsible node -/

/-- A store at a node returns within any nesting, with the same outcome. -/
theorem store_returns (medium : Medium Unit) (net : Network Unit) (address : String) (key : NodeId)
    (value : Value) : ∃ net', ∀ depth,
      Returns (store (env medium (depth + 1) address) key value) net fun _ n => n = net' := by
  have hreturns : Returns (store (env medium 1 address) key value) net fun _ _ => True :=
    (store_appends (.any net) (.any _) key value).mono fun _ _ _ => trivial
  obtain ⟨_, net', hrun, -⟩ := hreturns
  refine ⟨net', fun depth => ?_⟩
  have hone : Returns (store (env medium 1 address) key value) net fun _ n => n = net' :=
    ⟨_, net', hrun, rfl⟩
  -- A call that returns within one level returns the same within more.
  have hextends : Extends (store (env medium 1 address) key value)
      (store (env medium (depth + 1) address) key value) :=
    store_extends (call_extends (Nat.succ_le_succ (Nat.zero_le depth))) key value
  exact hextends.returns hone

/-- A lookup under a medium without a state leaves the network as it is. -/
theorem findSuccessor_same {medium : Medium Unit} {address : String} {x : NodeInfo}
    (h : Returns (findSuccessor (env medium (depth + 1) address) key) net fun r _ => r = x) :
    Returns (findSuccessor (env medium (depth + 1) address) key) net fun r n => r = x ∧ n = net :=
  (h.and (findSuccessor_finds (.any net) (.any _) key)).mono fun _ _ hr => ⟨hr.1, hr.2.1.eq⟩

/-! ### Posting at the responsible node and at another one -/

/-- The response to a message that was stored. -/
def messageReceived : Response := ⟨.ok, jsonObject "status" "message received"⟩

/-- The response to a message that was not. -/
def failedToStore : Response := ⟨.internalServerError, jsonObject "error" "Failed to store message"⟩

/-- A node that is responsible itself stores the message and confirms it. -/
theorem storeAtResponsible_local {medium : Medium Unit} {net' : Network Unit} {value : Value}
    (hx : Returns (findSuccessor (env medium (depth + 1) ax) key) net
      fun r _ => r = (net.node ax).info)
    (hstore : Returns (store (env medium (depth + 1) ax) key value) net fun _ n => n = net') :
    Returns (storeAtResponsible (env medium (depth + 1) ax) key value) net
      fun r n => r = messageReceived ∧ n = net' := by
  refine (findSuccessor_same hx).bind ?_
  rintro responsible n ⟨rfl, rfl⟩
  simp only [returns_bind, returns_safeLock, returns_ite, env_node]
  refine ⟨fun _ => ?_, fun hne => absurd trivial hne⟩
  exact hstore.mono fun _ _ h => returns_pure.mpr ⟨rfl, h⟩

/-- The other nodes send the message to it. The outcome is what the call does. -/
theorem storeAtResponsible_remote {medium : Medium Unit} {value : Value} {x : NodeInfo}
    {Q : Response → Network Unit → Prop}
    (hy : Returns (findSuccessor (env medium (depth + 1) ay) key) net fun r _ => r = x)
    (hne : x.id ≠ (net.node ay).info.id)
    (hcall : Returns (call medium (depth + 1) x.address (.store key value)) net
      fun r n => Q (if r.isSome then messageReceived else failedToStore) n) :
    Returns (storeAtResponsible (env medium (depth + 1) ay) key value) net Q := by
  refine (findSuccessor_same hy).bind ?_
  rintro responsible n ⟨rfl, rfl⟩
  simp only [returns_bind, returns_safeLock, returns_ite, env_node, env_callNode]
  refine ⟨fun heq => absurd heq hne, fun _ => hcall.mono fun r n hQ => ?_⟩
  cases r with
  | some reply => exact returns_pure.mpr hQ
  | none => exact returns_pure.mpr hQ

/-- A `Store` request that is received is a store at the called node. -/
theorem call_store_received {value : Value} {net' : Network Unit}
    (hreceived : receivedRequest encode decode arrival (.store key value)
      = some (.store key value))
    (hlistening : net.listening ax = true)
    (hstore : Returns (store (env (framed encode decode arrival) depth ax) key value) net
      fun _ n => n = net') :
    Returns (call (framed encode decode arrival) (depth + 1) ax (.store key value)) net
      fun r n => r = some .pong ∧ n = net' := by
  have hanswered : (framed encode decode arrival net.medium ax (.store key value)).1 = .answered :=
    if_pos hreceived
  rw [returns_call_answered hanswered hlistening]
  simp only [handleConnection.eq_def, returns_bind, returns_pure]
  exact hstore.mono fun _ _ h => ⟨trivial, h⟩

/-- One that is not received fails and leaves the network as it is. -/
theorem call_store_dropped {value : Value}
    (hdropped : receivedRequest encode decode arrival (.store key value)
      ≠ some (.store key value)) :
    Returns (call (framed encode decode arrival) (depth + 1) ax (.store key value)) net
      fun r n => r = none ∧ n = net := by
  have hlost : (framed encode decode arrival net.medium ax (.store key value)).1
      = .notDelivered := if_neg hdropped
  rw [returns_call_lost (Or.inl hlost)]
  exact ⟨rfl, rfl⟩

/-- The message that is stored for a payload. -/
def storedMessage (payload : MessagePayload) (now : ℕ) : StoredMessage :=
  ⟨payload.«from», payload.ciphertext, payload.nonce, now⟩

/-- The handler of a payload whose message is serialized. -/
theorem messageHandler_ok {σ : Type} {env : NodeEnv σ} {sha1 : List UInt8 → NodeId}
    {serialize : StoredMessage → Option Value} {payload : MessagePayload} {now : ℕ} {value : Value}
    (h : serialize (storedMessage payload now) = some value) :
    messageHandler env sha1 serialize now (.ok payload) =
      storeAtResponsible env (generateKey sha1 payload.«to») value := by
  unfold storedMessage at h
  simp only [messageHandler, h]

/-- The handler of a payload whose message is not. -/
theorem messageHandler_unserialized {σ : Type} {env : NodeEnv σ} {sha1 : List UInt8 → NodeId}
    {serialize : StoredMessage → Option Value} {payload : MessagePayload} {now : ℕ}
    (h : serialize (storedMessage payload now) = none) :
    messageHandler env sha1 serialize now (.ok payload) =
      pure ⟨.internalServerError, "\x7b\"error\": \"Failed to serialize message\"\x7d"⟩ := by
  unfold storedMessage at h
  simp only [messageHandler, h]

/-- A message whose `Store` request fits in `MAX_MESSAGE_SIZE` has the same response and leaves the
same network, whether it is posted at the responsible node or at another node that finds it. -/
theorem messageHandler_agrees (sha1 : List UInt8 → NodeId)
    (serialize : StoredMessage → Option Value) (encode : DhtMessage → Option (List UInt8))
    (decode : List UInt8 → Option DhtMessage) (arrival : Arrival) (net : Network Unit) (depth : ℕ)
    (ax ay : String) (payload : MessagePayload) (now : ℕ)
    (hround : ∀ m encoded, encode m = some encoded → decode encoded = some m)
    (hlistening : net.listening ax = true) (haddress : (net.node ax).info.address = ax)
    (hids : (net.node ax).info.id = (net.node ay).info.id → ax = ay)
    (hx : Returns (findSuccessor (env (framed encode decode arrival) (depth + 2) ax)
      (generateKey sha1 payload.«to»)) net fun r _ => r = (net.node ax).info)
    (hy : Returns (findSuccessor (env (framed encode decode arrival) (depth + 2) ay)
      (generateKey sha1 payload.«to»)) net fun r _ => r = (net.node ax).info)
    (hfits : ∀ value, serialize (storedMessage payload now) = some value →
      ∃ encoded, encode (.store (generateKey sha1 payload.«to») value) = some encoded ∧
        encoded.length ≤ maxMessageSize) :
    ∃ (response : Response) (net' : Network Unit),
      Returns (messageHandler (env (framed encode decode arrival) (depth + 2) ax) sha1 serialize now
        (.ok payload)) net (fun r n => r = response ∧ n = net') ∧
      Returns (messageHandler (env (framed encode decode arrival) (depth + 2) ay) sha1 serialize now
        (.ok payload)) net (fun r n => r = response ∧ n = net') := by
  cases hserialize : serialize (storedMessage payload now) with
  | none =>
    rw [messageHandler_unserialized hserialize, messageHandler_unserialized hserialize]
    exact ⟨_, net, returns_pure.mpr ⟨rfl, rfl⟩, returns_pure.mpr ⟨rfl, rfl⟩⟩
  | some value =>
    rw [messageHandler_ok hserialize, messageHandler_ok hserialize]
    obtain ⟨net', hstore⟩ := store_returns (framed encode decode arrival) net ax
      (generateKey sha1 payload.«to») value
    have hlocal := storeAtResponsible_local hx (hstore (depth + 1))
    refine ⟨messageReceived, net', hlocal, ?_⟩
    by_cases heq : (net.node ax).info.id = (net.node ay).info.id
    · -- It is the same node.
      have hsame : ax = ay := hids heq
      rw [← hsame]
      exact hlocal
    · refine storeAtResponsible_remote hy heq ?_
      have hreceived := (receivedRequest_eq_iff arrival hround _).mpr (hfits value hserialize)
      rw [haddress]
      refine (call_store_received hreceived hlistening (hstore depth)).mono ?_
      rintro r n ⟨rfl, hn⟩
      exact ⟨rfl, hn⟩

/-- A message whose `Store` request is larger is confirmed at the responsible node, and refused at
any other node, where nothing changes. -/
theorem messageHandler_oversized (sha1 : List UInt8 → NodeId)
    {serialize : StoredMessage → Option Value} {payload : MessagePayload} {now : ℕ} {value : Value}
    {encoded : List UInt8} (hserialize : serialize (storedMessage payload now) = some value)
    (hencode : encode (.store (generateKey sha1 payload.«to») value) = some encoded)
    (hlarge : maxMessageSize < encoded.length)
    (hne : (net.node ax).info.id ≠ (net.node ay).info.id)
    (hx : Returns (findSuccessor (env (framed encode decode arrival) (depth + 2) ax)
      (generateKey sha1 payload.«to»)) net fun r _ => r = (net.node ax).info)
    (hy : Returns (findSuccessor (env (framed encode decode arrival) (depth + 2) ay)
      (generateKey sha1 payload.«to»)) net fun r _ => r = (net.node ax).info) :
    Returns (messageHandler (env (framed encode decode arrival) (depth + 2) ax) sha1 serialize now
      (.ok payload)) net (fun r _ => r = messageReceived) ∧
    Returns (messageHandler (env (framed encode decode arrival) (depth + 2) ay) sha1 serialize now
      (.ok payload)) net (fun r n => r = failedToStore ∧ n = net) := by
  rw [messageHandler_ok hserialize, messageHandler_ok hserialize]
  obtain ⟨net', hstore⟩ := store_returns (framed encode decode arrival) net ax
    (generateKey sha1 payload.«to») value
  constructor
  · exact (storeAtResponsible_local hx (hstore (depth + 1))).mono fun _ _ h => h.1
  · have hdropped : receivedRequest encode decode arrival
        (.store (generateKey sha1 payload.«to») value)
          ≠ some (.store (generateKey sha1 payload.«to») value) := by
      rw [receivedRequest_eq arrival hencode, if_neg (by omega)]
      exact Option.some_ne_none _ ∘ Eq.symm
    refine storeAtResponsible_remote hy hne ((call_store_dropped hdropped).mono ?_)
    rintro r n ⟨rfl, hn⟩
    exact ⟨rfl, hn⟩

end Network

/-! ### A node that has just joined -/

/-- The nodes of a ring in which every node has the node 10 as its successor. -/
def hubRing : Network Unit :=
  Network.ofIds (linkedNode (fun _ => biguintToNodeId 10) fun _ => none)

/-- The successor of every node of the hub is the node 10. -/
theorem hubRing_node (i : NodeId) :
    hubRing.node (infoOf i).address = linkedNode (fun _ => biguintToNodeId 10) (fun _ => none) i :=
  congrArg (linkedNode (fun _ => biguintToNodeId 10) fun _ => none) (idOf_addressOf i)

/-- A node that knows no closer node answers with its own successor. -/
theorem findSuccessor_own {σ : Type} {env : NodeEnv σ} {w : σ} {id : NodeId}
    (h : (env.node w).closestPrecedingNode id = (env.node w).info) :
    Returns (findSuccessor env id) w fun r _ => r = (env.node w).successor := by
  simp only [findSuccessor, findPredecessor, returns_bind, returns_safeLock]
  unfold findPredecessorLoop
  -- The walk ends at the node itself, at once or because its next node is the same.
  split
  · simp
  · simp [maxRetries, nextNode, h]

/-- Every lookup ends with the node 10. -/
theorem hubRing_lookup (medium : Medium Unit) (depth : ℕ) (i key : NodeId) :
    Returns (findSuccessor (Network.env medium depth (infoOf i).address) key) hubRing
      fun r _ => r = (hubRing.node (infoOf (biguintToNodeId 10)).address).info := by
  have hnode := hubRing_node i
  have hself : (hubRing.node (infoOf (biguintToNodeId 10)).address).info
      = (hubRing.node (infoOf i).address).successor := by
    rw [hnode, hubRing_node]
    rfl
  rw [hself]
  refine findSuccessor_own ?_
  rw [Network.env_node, hnode]
  exact closestPrecedingNode_unrefreshed (k := M) rfl key

/-! ### The format of `bincode` for a stored message and for a `Store` request -/

/-- An integer of 64 bits, its low byte first. -/
def uint64Le (n : ℕ) : List UInt8 := (List.range 8).map fun i => UInt8.ofNat (n / 256 ^ i)

/-- Bytes after their number. -/
def countedBytes (bytes : List UInt8) : List UInt8 := uint64Le bytes.length ++ bytes

/-- `bincode::serialize` of a stored message, field by field. -/
def encodeStored (m : StoredMessage) : Option Value :=
  some (countedBytes m.«from».toUTF8.toList ++ countedBytes m.ciphertext ++ countedBytes m.nonce ++
    uint64Le m.timestamp)

/-- The variant 8, the key and the value. The runs below send no other request. -/
def encodeStore : DhtMessage → Option (List UInt8)
  | .store key value => some ([8, 0, 0, 0] ++ key.toList ++ countedBytes value)
  | _ => none

/-- Reads such a request back. -/
def decodeStore (encoded : List UInt8) : Option DhtMessage :=
  if h : encoded.take 4 = [8, 0, 0, 0] ∧ ((encoded.drop 4).take 20).length = 20 then
    some (.store ⟨((encoded.drop 4).take 20).toArray, h.2⟩ (encoded.drop 32))
  else none

/-- The number takes eight bytes. -/
theorem length_countedBytes (bytes : List UInt8) :
    (countedBytes bytes).length = bytes.length + 8 := by
  rw [countedBytes, List.length_append, uint64Le, List.length_map, List.length_range]
  omega

/-- A stored message has 32 bytes besides its strings. -/
theorem length_encodeStored {m : StoredMessage} {value : Value} (h : encodeStored m = some value) :
    value.length = m.«from».toUTF8.toList.length + m.ciphertext.length + m.nonce.length + 32 := by
  cases h
  simp only [List.length_append, length_countedBytes, uint64Le, List.length_map, List.length_range]
  omega

/-- A `Store` request has 32 bytes besides its value. -/
theorem length_encodeStore {key : NodeId} {value : Value} {encoded : List UInt8}
    (h : encodeStore (.store key value) = some encoded) : encoded.length = value.length + 32 := by
  cases h
  simp only [List.length_append, length_countedBytes, Vector.length_toList, List.length_cons,
    List.length_nil]
  omega

/-- What is encoded is decoded to the same request. -/
theorem decodeStore_encodeStore (m : DhtMessage) (encoded : List UInt8)
    (h : encodeStore m = some encoded) : decodeStore encoded = some m := by
  cases m with
  | store key value =>
    cases h
    have hkey : key.toList.length = 20 := Vector.length_toList
    have hcount : (uint64Le value.length).length = 8 := by simp [uint64Le]
    -- Behind the variant and the key there are the eight bytes of the length.
    have hvalue : (key.toList ++ (uint64Le value.length ++ value)).drop 28 = value := by
      rw [← List.append_assoc]
      exact List.drop_left' (by rw [List.length_append, hkey, hcount])
    have harray : key.toList.toArray = key.toArray := Vector.toArray_toList
    simp [decodeStore, countedBytes, hkey, hvalue, harray]
  | _ => cases h

/-! ### Posting at the two nodes -/

open Network

/-- `messageHandler_agrees` for a short message. -/
theorem messageHandler_agrees_hubRing :
    ∃ (response : Response) (net' : Network Unit),
      Returns (messageHandler (env (framed encodeStore decodeStore .byteByByte) 2
        (infoOf (biguintToNodeId 10)).address) (fun _ => biguintToNodeId 25) encodeStored 0
        (.ok ⟨"", "", [1, 2], [3]⟩)) hubRing (fun r n => r = response ∧ n = net') ∧
      Returns (messageHandler (env (framed encodeStore decodeStore .byteByByte) 2
        (infoOf (biguintToNodeId 20)).address) (fun _ => biguintToNodeId 25) encodeStored 0
        (.ok ⟨"", "", [1, 2], [3]⟩)) hubRing (fun r n => r = response ∧ n = net') := by
  refine messageHandler_agrees _ encodeStored encodeStore decodeStore .byteByByte hubRing 0 _ _ _ 0
    decodeStore_encodeStore rfl ?_ ?_ (hubRing_lookup _ _ _ _) (hubRing_lookup _ _ _ _) ?_
  · rw [hubRing_node]
    rfl
  · intro h
    rw [hubRing_node, hubRing_node] at h
    exact absurd h (by decide)
  · intro value hvalue
    refine ⟨_, rfl, ?_⟩
    rw [length_encodeStore rfl, length_encodeStored hvalue]
    show "".toUTF8.toList.length + 2 + 1 + 32 + 32 ≤ maxMessageSize
    rw [show "".toUTF8.toList = [] by simp [ByteArray.toList, ByteArray.toList.loop]]
    decide

/-- A message whose ciphertext alone fills `MAX_MESSAGE_SIZE` is confirmed at the node 10, and
refused at the node 20. -/
theorem not_messageHandler_agrees :
    ¬∀ (sha1 : List UInt8 → NodeId) (serialize : StoredMessage → Option Value)
      (encode : DhtMessage → Option (List UInt8)) (decode : List UInt8 → Option DhtMessage)
      (arrival : Arrival) (net : Network Unit) (depth : ℕ) (ax ay : String)
      (payload : MessagePayload) (now : ℕ),
      (∀ m encoded, encode m = some encoded → decode encoded = some m) →
      (∀ key value, (encode (.store key value)).isSome) →
      net.listening ax = true → (net.node ax).info.address = ax →
      ((net.node ax).info.id = (net.node ay).info.id → ax = ay) →
      Returns (findSuccessor (env (framed encode decode arrival) (depth + 2) ax)
        (generateKey sha1 payload.«to»)) net (fun r _ => r = (net.node ax).info) →
      Returns (findSuccessor (env (framed encode decode arrival) (depth + 2) ay)
        (generateKey sha1 payload.«to»)) net (fun r _ => r = (net.node ax).info) →
      ∃ status,
        Returns (messageHandler (env (framed encode decode arrival) (depth + 2) ax) sha1 serialize
          now (.ok payload)) net (fun r _ => r.status = status) ∧
        Returns (messageHandler (env (framed encode decode arrival) (depth + 2) ay) sha1 serialize
          now (.ok payload)) net (fun r _ => r.status = status) := by
  intro hall
  have hinfo (i : NodeId) : (hubRing.node (infoOf i).address).info = infoOf i := by
    rw [hubRing_node]
    rfl
  have hne : (hubRing.node (infoOf (biguintToNodeId 10)).address).info.id
      ≠ (hubRing.node (infoOf (biguintToNodeId 20)).address).info.id := by
    rw [hinfo, hinfo]
    decide
  let payload : MessagePayload := ⟨"", "", List.replicate maxMessageSize 0, []⟩
  have hten := hubRing_lookup (framed encodeStore decodeStore .byteByByte) 2 (biguintToNodeId 10)
    (biguintToNodeId 25)
  have htwenty := hubRing_lookup (framed encodeStore decodeStore .byteByByte) 2 (biguintToNodeId 20)
    (biguintToNodeId 25)
  obtain ⟨status, hlocal, hremote⟩ := hall (fun _ => biguintToNodeId 25) encodeStored encodeStore
    decodeStore .byteByByte hubRing 0 _ _ payload 0 decodeStore_encodeStore (fun _ _ => rfl) rfl
    (congrArg NodeInfo.address (hinfo _)) (fun heq => absurd heq hne) hten htwenty
  obtain ⟨value, hvalue⟩ : ∃ value, encodeStored (storedMessage payload 0) = some value := ⟨_, rfl⟩
  obtain ⟨encoded, hencoded⟩ : ∃ encoded,
      encodeStore (.store (biguintToNodeId 25) value) = some encoded := ⟨_, rfl⟩
  have hlarge : maxMessageSize < encoded.length := by
    rw [length_encodeStore hencoded, length_encodeStored hvalue]
    show maxMessageSize < _ + (List.replicate maxMessageSize 0).length + _ + 32 + 32
    rw [List.length_replicate]
    omega
  obtain ⟨hok, hfailed⟩ := messageHandler_oversized (fun _ => biguintToNodeId 25) hvalue hencoded
    hlarge hne hten htwenty
  obtain ⟨_, _, -, rfl, rfl⟩ := hlocal.and hok
  obtain ⟨_, _, -, hstatus, rfl, -⟩ := hremote.and hfailed
  cases hstatus

end TaceChat
