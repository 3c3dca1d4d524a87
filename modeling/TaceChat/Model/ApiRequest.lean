import Mathlib.Data.List.Basic

/-!
# Requests of the web client

`apiRequest` sends a request to the node of the client. When that fails and the budget of retries is
not used up, it asks the bootstrap node for another node (`fetchNewNode`) and tries again
(`main.js`).

What becomes of a `fetch` is a `FetchOutcome`. The outcome of each request is an argument.
`JSON.parse` and the conversion of a value to a text belong to the browser and are parameters.
-/

set_option autoImplicit false

namespace TaceChat

/-- A JSON value as `JSON.parse` makes it. -/
inductive Json
  | null
  | bool (b : Bool)
  /-- The binary64 number with these bits. -/
  | number (bits : UInt64)
  | string (s : String)
  | array (elements : List Json)
  | object (fields : List (String × Json))

/-- An error that a call throws. -/
inductive JsError
  /-- `new Error(message)`. -/
  | error (message : String)
  | typeError (message : String)
  | syntaxError (message : String)
  deriving DecidableEq

namespace Json

/-- The values that are not falsy. Of the numbers, the two zeros and the NaNs are falsy. -/
def truthy : Json → Bool
  | null => false
  | bool b => b
  | number bits =>
    let magnitude := bits &&& 0x7fffffffffffffff
    0 < magnitude && magnitude ≤ 0x7ff0000000000000
  | string s => s ≠ ""
  | array _ | object _ => true

/-- The property of that name, which may be `undefined` (`none`). Reading one of `null` throws. -/
def get (data : Json) (field : String) : Except JsError (Option Json) :=
  match data with
  | null => .error (.typeError ("Cannot read properties of null (reading '" ++ field ++ "')"))
  | object fields => .ok (fields.lookup field)
  | _ => .ok none

end Json

/-- What a `fetch` comes to. -/
inductive FetchOutcome
  | networkError (error : JsError)
  /-- The status of the response, and the text of its body if it can be read. -/
  | response (status : ℕ) (body : Except JsError String)

/-- What has been requested, with the outcome. A request that `fetchNewNode` makes is a `connect`,
also when `apiRequest` itself asks for `/connect`. -/
inductive Exchange (Options : Type)
  | api (url : String) (options : Options) (outcome : FetchOutcome)
  | connect (url : String) (outcome : FetchOutcome)

/-- Whether `apiRequest` itself has made the request. -/
def Exchange.isApi {Options : Type} : Exchange Options → Bool
  | api _ _ _ => true
  | connect _ _ => false

/-- The constants of the build, and what the browser does with values. -/
structure Browser where
  apiProtocol : String
  bootstrapNode : String
  /-- `JSON.parse`. -/
  parse : String → Except JsError Json
  /-- `String(value)`. -/
  toText : Json → String

namespace Browser

variable (env : Browser)

/-- `getUrl`, where `current` is `this.node`. An empty node does not count. -/
def getUrl (current path : String) (node : Option String) : String :=
  env.apiProtocol ++ "://" ++ (node.filter fun n => n ≠ "").getD current ++ path

/-- `response.ok`. -/
def ok (status : ℕ) : Bool := 200 ≤ status && status < 300

/-- `response.status >= 400 && response.status < 500`. -/
def isClientError (status : ℕ) : Bool := 400 ≤ status && status < 500

/-- The message of the error for a status. -/
def httpError (status : ℕ) : String := "HTTP error! status: " ++ toString status

/-- `response.json()`. -/
def json : FetchOutcome → Except JsError Json
  | .networkError error => .error error
  | .response _ body => do env.parse (← body)

/-- The error of a response with a 4xx status. Its body may name the error. -/
def clientError (status : ℕ) (body : Except JsError String) : JsError :=
  let errData :=
    match env.json (.response status body) with
    | .ok errData => errData
    | .error _ => .object [("error", .string "Request failed with client error.")]
  match errData.get "error" with
  | .error error => error
  | .ok value =>
    match value.filter Json.truthy with
    | some value => .error (env.toText value)
    | none => .error (httpError status)

/-- The `try` block of `apiRequest`: what it returns or throws. -/
def readResponse : FetchOutcome → Except JsError Json
  | .networkError error => .error error
  | .response status body =>
    if !ok status then
      -- "For 4xx errors, don't retry, just throw". The `catch` gets this error like any other.
      if isClientError status then .error (env.clientError status body)
      else .error (.error (httpError status))
    else do
      let text ← body
      if text ≠ "" then env.parse text else return .object []

/-- Asks the bootstrap node for a node: the node of the client afterwards, and the request. -/
def fetchNewNode {Options : Type} (current : String) (outcome : FetchOutcome) :
    String × Exchange Options :=
  let node : Except JsError (Option Json) := do
    let data ← env.json outcome
    if data.truthy then data.get "node" else return none
  let newNode :=
    match node with
    | .error _ => current
    | .ok node =>
      match node.filter Json.truthy with
      | some node => env.toText node
      | none => current
  (newNode, .connect (env.getUrl current "/connect" (some env.bootstrapNode)) outcome)

end Browser

/-- How a call of `apiRequest` has ended, the node of the client then, and the requests in their
order. -/
structure ApiRun (Options : Type) where
  result : Except JsError Json
  node : String
  exchanges : List (Exchange Options)

/-- `apiRequest` from the `i`-th request on. The `i`-th request ends as `fetches i`, and the call of
`fetchNewNode` after it as `connects i`. -/
def apiRequest {Options : Type} (env : Browser) (path : String) (options : Options)
    (fetches connects : ℕ → FetchOutcome) (retries : ℕ) (i : ℕ) (node : String) : ApiRun Options :=
  let sent := Exchange.api (env.getUrl node path none) options (fetches i)
  match env.readResponse (fetches i) with
  | .ok data => ⟨.ok data, node, [sent]⟩
  | .error error =>
    match retries with
    | 0 => ⟨.error error, node, [sent]⟩
    | retries + 1 =>
      let (newNode, asked) := env.fetchNewNode node (connects i)
      let rest := apiRequest env path options fetches connects retries (i + 1) newNode
      { rest with exchanges := sent :: asked :: rest.exchanges }

end TaceChat
