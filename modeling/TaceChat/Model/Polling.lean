import Mathlib.Logic.Function.Basic
import TaceChat.Model.Api
import TaceChat.Model.Hex

/-!
# Challenges and polls

A client that polls for its messages first asks for a challenge (`getChallengeHandler`), signs its
nonce, and sends the signature with the poll (`pollHandler`). The challenges of all public keys are
in one map behind one mutex (`api.rs`). `verifyChallenge` is what a poll does under that mutex.

Time is in nanoseconds. The random nonce of a challenge and the outcome of reading a request body
are arguments. `verify` (`keys.rs`) and the serializers are parameters.
-/

set_option autoImplicit false

namespace TaceChat

/-- The body of a poll. -/
structure PollRequestPayload where
  publicKey : String
  nonce : List UInt8
  signature : List UInt8
  deriving DecidableEq

/-- A message as a poll returns it. -/
structure PollMessage where
  «from» : String
  ciphertext : List UInt8
  nonce : List UInt8
  timestamp : ℕ
  deriving DecidableEq

/-- A challenge and the time when it was issued. -/
structure Challenge where
  nonce : List UInt8
  timestamp : ℕ
  deriving DecidableEq

/-- `HashMap<String, Challenge>`, by public key. -/
abbrev ChallengeMap := String → Option Challenge

/-- `CHALLENGE_EXPIRATION`: one minute. -/
def challengeExpiration : ℕ := 60 * 1000000000

/-- `challenges.retain(|_, c| c.timestamp.elapsed() < CHALLENGE_EXPIRATION)`. -/
def ChallengeMap.retainFresh (now : ℕ) (challenges : ChallengeMap) : ChallengeMap :=
  fun publicKey =>
    (challenges publicKey).filter fun c => now - c.timestamp < challengeExpiration

/-- The value of the first parameter of the query that starts with `public_key=`. -/
def publicKeyParameter (query : Option String) : Option String := do
  let q ← query
  let p ← (q.toList.splitOn '&').find? fun p => "public_key=".toList.isPrefixOf p
  let value ← (p.splitOn '=')[1]?
  return String.ofList value

/-- Issues a challenge with the given nonce. It replaces the one that the key had. -/
def getChallengeHandler (query : Option String) (nonce : List UInt8) (now : ℕ)
    (challenges : ChallengeMap) : Response × ChallengeMap :=
  match publicKeyParameter query with
  | none => (⟨.badRequest, jsonObject "error" "Missing public_key parameter"⟩, challenges)
  | some publicKey =>
    (⟨.ok, jsonObject "nonce" (hexEncode nonce)⟩,
      Function.update (challenges.retainFresh now) publicKey (some ⟨nonce, now⟩))

/-- Whether a poll is valid, and the challenges after the check. A valid poll uses up its
challenge. -/
def verifyChallenge (verify : String → List UInt8 → List UInt8 → Bool)
    (pollPayload : PollRequestPayload) (challenges : ChallengeMap) : Bool × ChallengeMap :=
  match challenges pollPayload.publicKey with
  | some challenge =>
    if challenge.nonce = pollPayload.nonce then
      if verify pollPayload.publicKey pollPayload.nonce pollPayload.signature then
        (true, Function.update challenges pollPayload.publicKey none)
      else (false, challenges)
    else (false, challenges)
  | none => (false, challenges)

section PollHandler

variable {σ : Type} (env : NodeEnv σ)

/-- The end of `poll_handler`: the values that the responsible node has under the key. -/
def retrieveAtResponsible (key : NodeId) : NodeM σ (Option (List Value)) := do
  let responsibleNode ← findSuccessor env key
  let self ← env.safeLock
  if responsibleNode.id = self.info.id then
    retrieve env key
  else
    match ← env.callNode responsibleNode.address (.retrieve key) with
    | some (.retrieved _ value) => return value
    | _ => return none

/-- Handles a poll. Values that are no stored messages are left out of the answer. -/
def pollHandler (sha1 : List UInt8 → NodeId) (deserialize : Value → Option StoredMessage)
    (messagesJson : List PollMessage → String)
    (verify : String → List UInt8 → List UInt8 → Bool) (challenges : ChallengeMap)
    (request : Except BodyError PollRequestPayload) : NodeM σ (Response × ChallengeMap) := do
  match request with
  | .error .unreadable =>
    return (⟨.badRequest, jsonObject "error" "Failed to read request body"⟩, challenges)
  | .error .invalidJson =>
    return (⟨.badRequest, jsonObject "error" "Invalid JSON payload"⟩, challenges)
  | .ok pollPayload =>
    match verifyChallenge verify pollPayload challenges with
    | (false, challenges') =>
      return (⟨.unauthorized, jsonObject "error" "Invalid challenge response"⟩, challenges')
    | (true, challenges') => do
      let key := generateKey sha1 pollPayload.publicKey
      let messagesData ← retrieveAtResponsible env key
      let messages := (messagesData.getD []).filterMap fun data =>
        (deserialize data).map fun storedMsg =>
          (⟨storedMsg.«from», storedMsg.ciphertext, storedMsg.nonce, storedMsg.timestamp⟩ :
            PollMessage)
      return (⟨.ok, messagesJson messages⟩, challenges')

end PollHandler

/-! ### Runs -/

/-- A request to `/poll/challenge`, with the nonce that it draws, or to `/poll`. -/
inductive PollingRequest
  | challenge (query : Option String) (nonce : List UInt8)
  | poll (request : Except BodyError PollRequestPayload)

/-- A request and the time when it takes the lock of the challenges. -/
structure TimedRequest where
  now : ℕ
  request : PollingRequest

section Runs

variable (verify : String → List UInt8 → List UInt8 → Bool)

/-- What a request does to the challenges. -/
def TimedRequest.serve (r : TimedRequest) (challenges : ChallengeMap) : ChallengeMap :=
  match r.request with
  | .challenge query nonce => (getChallengeHandler query nonce r.now challenges).2
  | .poll (.ok pollPayload) => (verifyChallenge verify pollPayload challenges).2
  | .poll (.error _) => challenges

/-- The challenges after the requests of a run, of which the last one is the first of the list. -/
def challengesAfter : List TimedRequest → ChallengeMap
  | [] => fun _ => none
  | r :: earlier => r.serve verify (challengesAfter earlier)

/-- The poll passes the check when it comes after the requests. -/
def Authorized (earlier : List TimedRequest) (pollPayload : PollRequestPayload) : Prop :=
  (verifyChallenge verify pollPayload (challengesAfter verify earlier)).1 = true

/-- Whether a poll is authorized can be computed where `verify` can. -/
instance (earlier : List TimedRequest) (pollPayload : PollRequestPayload) :
    Decidable (Authorized verify earlier pollPayload) :=
  inferInstanceAs (Decidable (_ = true))

end Runs

end TaceChat
