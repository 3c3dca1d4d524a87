import TaceChat.Model.Client
import TaceChat.Model.Network

/-!
# Requests as bytes

A request goes over its own connection. The caller writes the serialized message and shuts its half
down (`call_node_internal`), and the called node reads until the end, up to `MAX_MESSAGE_SIZE` bytes
(`handle_connection`). The serializer is third-party code and a parameter here. The medium `framed`
is a network without failures: it loses exactly the requests that the reading node drops. A caller
reads its response without a limit.
-/

set_option autoImplicit false

namespace TaceChat

/-- `MAX_MESSAGE_SIZE`: 1 MiB. -/
def maxMessageSize : ℕ := 1024 * 1024

/-- The read loop of `handle_connection`, over what its reads return: an empty read is the end of
the stream. `none` when the node drops the connection. -/
def readMessage : List UInt8 → List (List UInt8) → Option (List UInt8)
  | buffer, [] => some buffer
  | buffer, chunk :: rest =>
    if chunk = [] then some buffer
    else if maxMessageSize < buffer.length + chunk.length then none
    else readMessage (buffer ++ chunk) rest

/-- How a stream of bytes arrives: the reads return the bytes in order, and none is empty before the
end. -/
structure Arrival where
  chunks : List UInt8 → List (List UInt8)
  flatten_chunks : ∀ bytes, (chunks bytes).flatten = bytes
  chunk_ne_nil : ∀ bytes, ∀ chunk ∈ chunks bytes, chunk ≠ []

/-- Each byte in a read of its own. -/
def Arrival.byteByByte : Arrival where
  chunks bytes := bytes.map fun b => [b]
  flatten_chunks bytes := by
    induction bytes with
    | nil => rfl
    | cons b bytes ih => rw [List.map_cons, List.flatten_cons, ih, List.singleton_append]
  chunk_ne_nil bytes chunk h := by
    obtain ⟨b, -, rfl⟩ := List.mem_map.mp h
    exact List.cons_ne_nil b []

section

variable (encode : DhtMessage → Option (List UInt8)) (decode : List UInt8 → Option DhtMessage)
  (arrival : Arrival)

/-- What the called node makes of a request, if anything. -/
def receivedRequest (message : DhtMessage) : Option DhtMessage := do
  let encoded ← encode message
  let buffer ← readMessage [] (arrival.chunks encoded)
  decode buffer

/-- The medium that loses a request only when the called node does not read it as it was sent. -/
def framed : Medium Unit := fun _ _ message =>
  (if receivedRequest encode decode arrival message = some message then .answered
    else .notDelivered, ())

/-- An attempt at a call on a network without failures. `response` is the reply of the handler. When
the node drops the connection, the caller has no bytes to deserialize. -/
def framedAttempt (message response : DhtMessage) : Attempt where
  canConnect := true
  connect := .done
  serialized := (encode message).isSome
  write := .done
  read := .done
  response := if receivedRequest encode decode arrival message = some message then some response
    else none
  handled := receivedRequest encode decode arrival message = some message
  connected_of_handled h := by
    refine ⟨rfl, rfl, ?_⟩
    cases henc : encode message with
    | some encoded => rfl
    | none => simp [receivedRequest, henc] at h
  handled_of_response h := by
    by_contra hnot
    simp_all

end

end TaceChat
