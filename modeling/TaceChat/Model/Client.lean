import TaceChat.Model.Message

/-!
# Calls with retries

`callNodeWithRetry` makes up to `callRetries` attempts at one call, each a `callNodeInternal`
(`network_client.rs`). What happens to an attempt on the way is an `Attempt`: the answer of the
connection limiter, the outcome of each step under its timeout, and whether the peer's handler has
run on the request. The delays between attempts are left out.
-/

set_option autoImplicit false

namespace TaceChat

/-- The outcome of an operation on a connection under a timeout. -/
inductive IoOutcome
  | done
  | failed
  | timedOut
  deriving DecidableEq

/-- One attempt of `call_node_with_retry`: what its connection does. -/
structure Attempt where
  /-- The limiter allows the connection. -/
  canConnect : Bool
  connect : IoOutcome
  /-- `bincode::serialize` accepts the request. -/
  serialized : Bool
  write : IoOutcome
  read : IoOutcome
  /-- What `bincode::deserialize` makes of the bytes that were read. -/
  response : Option DhtMessage
  /-- The handler of the peer has run on the request. -/
  handled : Bool
  /-- The peer can only handle what was sent over a connection. -/
  connected_of_handled : handled = true → canConnect = true ∧ connect = .done ∧ serialized = true
  /-- The peer writes a response only after its handler has run. -/
  handled_of_response : response.isSome = true → handled = true

/-- The `MAX_RETRIES` of the client. -/
def callRetries : ℕ := 3

/-- One attempt at a call. `none` is an `Err`. The outcome of the shutdown of the writing half is
only logged. -/
def callNodeInternal (a : Attempt) : Option DhtMessage :=
  if !a.canConnect then none
  else
    match a.connect with
    | .failed | .timedOut => none
    | .done =>
      if !a.serialized then none
      else
        match a.write with
        | .failed | .timedOut => none
        | .done =>
          match a.read with
          | .failed | .timedOut => none
          | .done => a.response

/-- The loop over the attempts from the `i`-th on, at most `k` of them: the result of the call and
the attempts that were made. -/
def retryLoop (attempts : ℕ → Attempt) : ℕ → ℕ → Option DhtMessage × List Attempt
  | 0, _ => (none, [])
  | k + 1, i =>
    match callNodeInternal (attempts i) with
    | some response => (some response, [attempts i])
    | none =>
      let (result, made) := retryLoop attempts k (i + 1)
      (result, attempts i :: made)

/-- `call_node_with_retry`, when the attempt of each number goes as given. -/
def callNodeWithRetry (attempts : ℕ → Attempt) : Option DhtMessage × List Attempt :=
  retryLoop attempts callRetries 0

end TaceChat
