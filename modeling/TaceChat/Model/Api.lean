import TaceChat.Model.Storage

/-!
# Posting a message

`messageHandler` is the handler of the public API that stores a posted message at the node that
is responsible for its recipient (`api.rs`). The JSON parser of the request body and the binary
serializer of the stored message are third-party code: the outcome of the first is an argument,
and the second is a parameter. The headers of a response are left out, because they are the same
in every response.
-/

set_option autoImplicit false

namespace TaceChat

/-- The body of a posted message. -/
structure MessagePayload where
  «to» : String
  /-- The public key of the sender. -/
  «from» : String
  ciphertext : List UInt8
  nonce : List UInt8
  deriving DecidableEq

/-- A message as it is stored under the key of its recipient. -/
structure StoredMessage where
  «from» : String
  ciphertext : List UInt8
  nonce : List UInt8
  timestamp : ℕ
  deriving DecidableEq

/-- What is wrong with the body of a request. -/
inductive BodyError
  | unreadable
  | invalidJson
  deriving DecidableEq

/-- The status codes of the handlers of messages and polls. -/
inductive StatusCode
  | ok
  | badRequest
  | unauthorized
  | internalServerError
  deriving DecidableEq

/-- A response with its body. The headers are left out. -/
structure Response where
  status : StatusCode
  body : String
  deriving DecidableEq

/-- `json!({ field: value }).to_string()`, for texts that need no escape. -/
def jsonObject (field value : String) : String :=
  "\x7b\"" ++ field ++ "\":\"" ++ value ++ "\"\x7d"

/-- `generate_key`: the key is the hash of the UTF-8 bytes of the public key. -/
def generateKey (sha1 : List UInt8 → NodeId) (publicKey : String) : NodeId :=
  sha1 publicKey.toUTF8.toList

variable {σ : Type} (env : NodeEnv σ)

/-- The end of `message_handler`: the message goes to the node that the lookup has found. -/
def storeAtResponsible (key : NodeId) (serialized : Value) : NodeM σ Response := do
  let responsibleNode ← findSuccessor env key
  let self ← env.safeLock
  let received : Response := ⟨.ok, jsonObject "status" "message received"⟩
  if responsibleNode.id = self.info.id then
    store env key serialized
    return received
  else
    match ← env.callNode responsibleNode.address (.store key serialized) with
    | some _ => return received
    | none => return ⟨.internalServerError, jsonObject "error" "Failed to store message"⟩

/-- Handles a posted message at the time `now`, in seconds. -/
def messageHandler (sha1 : List UInt8 → NodeId) (serialize : StoredMessage → Option Value)
    (now : ℕ) (request : Except BodyError MessagePayload) : NodeM σ Response := do
  match request with
  | .error .unreadable => return ⟨.badRequest, jsonObject "error" "Failed to read request body"⟩
  | .error .invalidJson => return ⟨.badRequest, jsonObject "error" "Invalid JSON payload"⟩
  | .ok payload =>
    let key := generateKey sha1 payload.«to»
    let storedMessage : StoredMessage := ⟨payload.«from», payload.ciphertext, payload.nonce, now⟩
    match serialize storedMessage with
    | none =>
      return ⟨.internalServerError, "\x7b\"error\": \"Failed to serialize message\"\x7d"⟩
    | some serialized => storeAtResponsible env key serialized

end TaceChat
