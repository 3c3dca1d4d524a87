import TaceChat.Model.Maintenance
import TaceChat.Model.Network
import TaceChat.Model.Polling

/-!
# The public API

`handler` serves one request to the public API of a node, by its method and path (`api.rs`).
`serveAll` lets the nodes of a network serve requests and run the tasks of their background loops,
one after the other.

The clocks and what is drawn at random are arguments (`Surroundings`). JSON, the binary serializer,
the hash and `verify` are parameters (`Codecs`). The headers of a response are left out, because
they are the same in every response but the one to a preflight request, and a lock of the challenges
that is poisoned, because nothing panics while it is held.
-/

set_option autoImplicit false

namespace TaceChat

/-- The methods that the routes distinguish. -/
inductive Method
  | get
  | post
  | options
  | other
  deriving DecidableEq

/-- The status codes that the handlers of messages and polls do not have are apart. -/
inductive HttpStatus
  | of (status : StatusCode)
  | notFound
  | serviceUnavailable
  deriving DecidableEq

/-- A response of the HTTP service. The headers are left out. -/
structure HttpResponse where
  status : HttpStatus
  body : String
  deriving DecidableEq

/-- The response of a handler as one of the service. -/
def Response.http (response : Response) : HttpResponse := ⟨.of response.status, response.body⟩

/-- A request as the service reads it. -/
structure HttpRequest where
  method : Method
  path : String
  query : Option String
  /-- `none` when reading the body fails. -/
  body : Option (List UInt8)
  deriving DecidableEq

/-- `MAX_ATTEMPTS` of `connect_handler`. -/
def connectAttempts : ℕ := 10

/-- The clocks while a request is served, and what is drawn at random for it. -/
structure Surroundings where
  /-- The seconds since the epoch. -/
  seconds : ℕ
  /-- `Instant::now`, in nanoseconds. -/
  instant : ℕ
  nonce : List UInt8
  /-- The 20 random bytes of each attempt of `connect_handler`. -/
  buffers : Vector (List UInt8) connectAttempts

/-- What the service uses of other crates: the hash, the encodings, the JSON texts and the check of
signatures. -/
structure Codecs where
  sha1 : List UInt8 → NodeId
  serialize : StoredMessage → Option Value
  deserialize : Value → Option StoredMessage
  verify : String → List UInt8 → List UInt8 → Bool
  messagePayload : List UInt8 → Option MessagePayload
  pollPayload : List UInt8 → Option PollRequestPayload
  messagesJson : List PollMessage → String
  metricsJson : NetworkMetrics → Option String

/-- The body of a request, as JSON. -/
def readBody {α : Type} (fromSlice : List UInt8 → Option α) :
    Option (List UInt8) → Except BodyError α
  | none => .error .unreadable
  | some bytes =>
    match fromSlice bytes with
    | none => .error .invalidJson
    | some payload => .ok payload

/-- The handlers. -/
inductive Route
  | ping
  | connect
  | challenge
  | message
  | poll
  | metrics
  | preflight
  | notFound
  deriving DecidableEq

/-- The match of `handler` on the method and the path. -/
def route : Method → String → Route
  | .get, "/ping" => .ping
  | .get, "/connect" => .connect
  | .get, "/poll/challenge" => .challenge
  | .post, "/message" => .message
  | .post, "/poll" => .poll
  | .get, "/metrics" => .metrics
  | .options, _ => .preflight
  | _, _ => .notFound

/-- The response of `/ping`. -/
def pingResponse : HttpResponse := ⟨.of .ok, jsonObject "message" "pong"⟩

/-- The response to a path without a route. -/
def notFoundResponse : HttpResponse := ⟨.notFound, jsonObject "error" "Not Found"⟩

section Handlers

variable {σ : Type} (env : NodeEnv σ) (codecs : Codecs)

/-- The attempts of `connect_handler`: the first one whose random key leads to this node or to a
node that answers a ping names that node. -/
def connectHandler : List (List UInt8) → NodeM σ HttpResponse
  | [] =>
    return ⟨.serviceUnavailable,
      jsonObject "error" "Could not find a reachable node in the network"⟩
  | buffer :: rest => do
    let key := codecs.sha1 buffer
    let responsibleNode ← findSuccessor env key
    let self ← env.safeLock
    let found : HttpResponse := ⟨.of .ok, jsonObject "node" responsibleNode.apiAddress⟩
    if responsibleNode.id = self.info.id then
      return found
    else
      match ← env.callNode responsibleNode.address .ping with
      | some .pong => return found
      | _ => connectHandler rest

/-- `metrics_handler`. A node without metrics, or with some that are no JSON, answers 500. -/
def metricsHandler : NodeM σ HttpResponse := do
  match (← env.safeLock).metrics with
  | none => return ⟨.of .internalServerError, "\x7b\"error\": \"Failed to get metrics\"\x7d"⟩
  | some metrics =>
    match codecs.metricsJson metrics with
    | none =>
      return ⟨.of .internalServerError, "\x7b\"error\": \"Failed to serialize metrics\"\x7d"⟩
    | some json => return ⟨.of .ok, json⟩

/-- The response to a request, and the challenges of the node after it. -/
def handler (s : Surroundings) (request : HttpRequest) (challenges : ChallengeMap) :
    NodeM σ (HttpResponse × ChallengeMap) := do
  match route request.method request.path with
  | .ping => return (pingResponse, challenges)
  | .connect => return (← connectHandler env codecs s.buffers.toList, challenges)
  | .challenge =>
    let (response, challenges') := getChallengeHandler request.query s.nonce s.instant challenges
    return (response.http, challenges')
  | .message =>
    let response ← messageHandler env codecs.sha1 codecs.serialize s.seconds
      (readBody codecs.messagePayload request.body)
    return (response.http, challenges)
  | .poll =>
    let (response, challenges') ← pollHandler env codecs.sha1 codecs.deserialize
      codecs.messagesJson codecs.verify challenges (readBody codecs.pollPayload request.body)
    return (response.http, challenges')
  | .metrics => return (← metricsHandler env codecs, challenges)
  | .preflight => return (⟨.of .ok, ""⟩, challenges)
  | .notFound => return (notFoundResponse, challenges)

end Handlers

/-! ### A network that serves requests -/

/-- What a node does next. -/
inductive ServiceEvent
  | request (s : Surroundings) (request : HttpRequest)
  | upkeep (task : Upkeep)

open Network in
/-- The nodes at the addresses do something one after the other. The result has the responses in
this order, with `none` for a background task. Every node has challenges of its own. -/
def serveAll (codecs : Codecs) (depth : ℕ) : List (String × ServiceEvent) →
    (String → ChallengeMap) → NodeM (Network Unit) (List (Option HttpResponse))
  | [], _ => return []
  | (address, .request s request) :: events, challenges => do
    let (response, challenges') ←
      handler (env reliable depth address) codecs s request (challenges address)
    let responses ← serveAll codecs depth events (Function.update challenges address challenges')
    return some response :: responses
  | (address, .upkeep task) :: events, challenges => do
    task.run (env reliable depth address)
    let responses ← serveAll codecs depth events challenges
    return none :: responses

end TaceChat
