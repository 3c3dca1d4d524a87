import TaceChat.Model.ApiRequest

/-!
# Retries of the web client

The `try` block of `apiRequest` throws the error of a 4xx response, and the `catch` around it
retries after any error. So a client error is final only when no budget is left.
`apiRequest_clientErrors` states for which outcomes of the requests every client error is final. The
induction is on the budget, and `clientErrorsFinal_api` is its step on the list of the requests.
-/

set_option autoImplicit false

namespace TaceChat

open Browser

variable {Options : Type}

/-- A 4xx response. -/
def FetchOutcome.IsClientError : FetchOutcome → Prop
  | .networkError _ => False
  | .response status _ => isClientError status = true

/-- A 2xx response whose body is empty or can be parsed. -/
def FetchOutcome.Accepted (env : Browser) : FetchOutcome → Prop
  | .networkError _ => False
  | .response status body =>
    ok status = true ∧ ∃ text, body = .ok text ∧ (text = "" ∨ ∃ data, env.parse text = .ok data)

/-- After a 4xx response, `apiRequest` sends no further request of its own and rejects with the
error of that response. -/
def ClientErrorsFinal (env : Browser) (result : Except JsError Json)
    (exchanges : List (Exchange Options)) : Prop :=
  ∀ (before after : List (Exchange Options)) (url : String) (options : Options) (status : ℕ)
    (body : Except JsError String),
    exchanges = before ++ .api url options (.response status body) :: after →
      isClientError status = true →
        (∀ x ∈ after, x.isApi = false) ∧ result = .error (env.clientError status body)

variable {env : Browser} {result : Except JsError Json}

/-! ### One attempt -/

/-- What is no 2xx response does not pass for a client error. -/
theorem not_ok_of_isClientError {status : ℕ} (h : isClientError status = true) :
    ok status = false := by
  simp only [isClientError, Bool.and_eq_true, decide_eq_true_eq] at h
  simp only [ok, Bool.and_eq_false_iff, decide_eq_false_iff_not]
  omega

/-- A client error is thrown as such. -/
theorem readResponse_clientError {status : ℕ} (body : Except JsError String)
    (h : isClientError status = true) :
    env.readResponse (.response status body) = .error (env.clientError status body) := by
  simp [readResponse, not_ok_of_isClientError h, h]

/-- The `try` block returns exactly for the responses that are accepted. -/
theorem exists_readResponse_ok_iff (outcome : FetchOutcome) :
    (∃ data, env.readResponse outcome = .ok data) ↔ outcome.Accepted env := by
  cases outcome with
  | networkError error => simp [readResponse, FetchOutcome.Accepted]
  | response status body =>
    cases hok : ok status with
    | false =>
      cases hclient : isClientError status <;>
        simp [readResponse, FetchOutcome.Accepted, hok, hclient]
    | true =>
      cases body with
      | error error => simp [readResponse, FetchOutcome.Accepted, hok, Bind.bind, Except.bind]
      | ok text =>
        by_cases hempty : text = ""
        · simp [readResponse, FetchOutcome.Accepted, hok, hempty, Bind.bind, Except.bind, Pure.pure,
            Except.pure]
        · simp [readResponse, FetchOutcome.Accepted, hok, hempty, Bind.bind, Except.bind]

/-- A client error is not accepted. -/
theorem not_accepted_of_isClientError {outcome : FetchOutcome} (hclient : outcome.IsClientError) :
    ¬outcome.Accepted env := by
  intro haccepted
  cases outcome with
  | networkError error => exact hclient
  | response status body =>
    have hok := haccepted.1
    rw [not_ok_of_isClientError hclient] at hok
    cases hok

/-! ### The list of the requests -/

/-- The law for a list is the law for its first request and for the rest. A client error is what the
`try` block throws. -/
theorem clientErrorsFinal_api (url : String) (options : Options) (outcome : FetchOutcome)
    (exchanges : List (Exchange Options)) :
    ClientErrorsFinal env result (.api url options outcome :: exchanges) ↔
      (outcome.IsClientError →
        (∀ x ∈ exchanges, x.isApi = false) ∧ result = env.readResponse outcome) ∧
      ClientErrorsFinal env result exchanges := by
  constructor
  · intro h
    constructor
    · intro hclient
      cases outcome with
      | networkError error => exact hclient.elim
      | response status body =>
        rw [readResponse_clientError body hclient]
        exact h [] exchanges url options status body rfl hclient
    · intro before after url' options' status body hsplit
      refine h (.api url options outcome :: before) after url' options' status body ?_
      rw [hsplit]
      rfl
  · rintro ⟨hfirst, hrest⟩ before after url' options' status body hsplit hclient
    cases before with
    | nil =>
      cases hsplit
      have hfinal := hfirst hclient
      rw [readResponse_clientError body hclient] at hfinal
      exact hfinal
    | cons x before =>
      cases hsplit
      exact hrest before after url' options' status body rfl hclient

/-- The requests of `fetchNewNode` do not matter. -/
theorem clientErrorsFinal_connect (url : String) (outcome : FetchOutcome)
    (exchanges : List (Exchange Options)) :
    ClientErrorsFinal env result (.connect url outcome :: exchanges) ↔
      ClientErrorsFinal env result exchanges := by
  constructor
  · intro h before after url' options' status body hsplit
    refine h (.connect url outcome :: before) after url' options' status body ?_
    rw [hsplit]
    rfl
  · intro h before after url' options' status body hsplit hclient
    cases before with
    | nil => cases hsplit
    | cons x before =>
      cases hsplit
      exact h before after url' options' status body rfl hclient

/-- The law for a single request whose outcome is that of the call. -/
theorem clientErrorsFinal_singleton (url : String) (options : Options) {outcome : FetchOutcome}
    (h : result = env.readResponse outcome) :
    ClientErrorsFinal env result [.api url options outcome] := by
  rw [clientErrorsFinal_api]
  refine ⟨fun _ => ⟨?_, h⟩, ?_⟩
  · intro x hx
    cases hx
  · intro before after url' options' status body hsplit
    cases before with
    | nil => cases hsplit
    | cons x before => cases hsplit

/-! ### All attempts -/

variable {path : String} {options : Options} {fetches connects : ℕ → FetchOutcome}

/-- The attempt that succeeds is the last one. -/
theorem apiRequest_of_ok {retries i : ℕ} {node : String} {data : Json}
    (h : env.readResponse (fetches i) = .ok data) :
    apiRequest env path options fetches connects retries i node =
      ⟨.ok data, node, [.api (env.getUrl node path none) options (fetches i)]⟩ := by
  unfold apiRequest
  simp only [h]

/-- Without a budget, an error is final. -/
theorem apiRequest_zero_of_error {i : ℕ} {node : String} {error : JsError}
    (h : env.readResponse (fetches i) = .error error) :
    apiRequest env path options fetches connects 0 i node =
      ⟨.error error, node, [.api (env.getUrl node path none) options (fetches i)]⟩ := by
  unfold apiRequest
  simp only [h]

/-- With a budget, any error leads to a retry. -/
theorem apiRequest_succ_of_error {retries i : ℕ} {node : String} {error : JsError}
    (h : env.readResponse (fetches i) = .error error) :
    ∃ (node' url : String) (rest : ApiRun Options),
      rest = apiRequest env path options fetches connects retries (i + 1) node' ∧
      (apiRequest env path options fetches connects (retries + 1) i node).result = rest.result ∧
      (apiRequest env path options fetches connects (retries + 1) i node).exchanges =
        .api (env.getUrl node path none) options (fetches i) :: .connect url (connects i) ::
          rest.exchanges := by
  rw [apiRequest]
  simp only [h]
  exact ⟨_, _, _, rfl, rfl, rfl⟩

/-- Every call sends a request. -/
theorem exists_isApi_apiRequest (retries i : ℕ) (node : String) :
    ∃ x ∈ (apiRequest env path options fetches connects retries i node).exchanges,
      x.isApi = true := by
  refine ⟨.api (env.getUrl node path none) options (fetches i), ?_, rfl⟩
  cases h : env.readResponse (fetches i) with
  | ok data =>
    rw [apiRequest_of_ok h]
    exact List.mem_singleton_self _
  | error error =>
    cases retries with
    | zero =>
      rw [apiRequest_zero_of_error h]
      exact List.mem_singleton_self _
    | succ retries =>
      obtain ⟨node', url, rest, -, -, hexchanges⟩ := apiRequest_succ_of_error h
      rw [hexchanges]
      exact List.mem_cons_self

/-- Each attempt is one request, and there is one attempt more than retries. -/
theorem countP_isApi_apiRequest (retries : ℕ) : ∀ (i : ℕ) (node : String),
    (apiRequest env path options fetches connects retries i node).exchanges.countP Exchange.isApi ≤
      retries + 1 := by
  induction retries with
  | zero =>
    intro i node
    cases h : env.readResponse (fetches i) with
    | ok data =>
      rw [apiRequest_of_ok h]
      exact List.countP_le_length
    | error error =>
      rw [apiRequest_zero_of_error h]
      exact List.countP_le_length
  | succ retries ih =>
    intro i node
    cases h : env.readResponse (fetches i) with
    | ok data =>
      rw [apiRequest_of_ok h]
      exact Nat.le_trans List.countP_le_length (Nat.le_add_left 1 _)
    | error error =>
      obtain ⟨node', url, rest, rfl, -, hexchanges⟩ := apiRequest_succ_of_error h
      have hrest := ih (i + 1) node'
      -- The request for another node does not count.
      rw [hexchanges, List.countP_cons_of_pos rfl, List.countP_cons_of_neg Bool.false_ne_true]
      omega

/-- The law holds for the attempts from the `i`-th on exactly when each client error among them
comes with the last one that the budget allows, or would come after one that succeeds. -/
theorem clientErrorsFinal_apiRequest (retries : ℕ) : ∀ (i : ℕ) (node : String),
    ClientErrorsFinal env (apiRequest env path options fetches connects retries i node).result
        (apiRequest env path options fetches connects retries i node).exchanges ↔
      ∀ k < retries, (fetches (i + k)).IsClientError → ∃ j < k, (fetches (i + j)).Accepted env := by
  induction retries with
  | zero =>
    intro i node
    refine iff_of_true ?_ fun k hk => absurd hk (Nat.not_lt_zero k)
    cases h : env.readResponse (fetches i) with
    | ok data =>
      rw [apiRequest_of_ok h]
      exact clientErrorsFinal_singleton _ _ h.symm
    | error error =>
      rw [apiRequest_zero_of_error h]
      exact clientErrorsFinal_singleton _ _ h.symm
  | succ retries ih =>
    intro i node
    cases h : env.readResponse (fetches i) with
    | ok data =>
      -- The first attempt succeeds, so none of the others is made.
      have haccepted := (exists_readResponse_ok_iff (fetches i)).mp ⟨data, h⟩
      rw [apiRequest_of_ok h]
      refine iff_of_true (clientErrorsFinal_singleton _ _ h.symm) ?_
      intro k _ hclient
      cases k with
      | zero => exact absurd haccepted (not_accepted_of_isClientError hclient)
      | succ k => exact ⟨0, Nat.succ_pos k, haccepted⟩
    | error error =>
      have hrejected : ¬(fetches i).Accepted env := by
        intro haccepted
        obtain ⟨data, hdata⟩ := (exists_readResponse_ok_iff (fetches i)).mpr haccepted
        rw [h] at hdata
        cases hdata
      obtain ⟨node', url, rest, rfl, hresult, hexchanges⟩ := apiRequest_succ_of_error h
      rw [hresult, hexchanges, clientErrorsFinal_api, clientErrorsFinal_connect, ih (i + 1) node']
      constructor
      · rintro ⟨hfirst, hrest⟩ k hk hclient
        cases k with
        | zero =>
          -- The first attempt is retried, so it was no client error.
          obtain ⟨x, hx, hapi⟩ : ∃ x ∈ (apiRequest env path options fetches connects retries (i + 1)
            node').exchanges, x.isApi = true := exists_isApi_apiRequest retries (i + 1) node'
          have hnone := (hfirst hclient).1 x (List.mem_cons_of_mem _ hx)
          rw [hapi] at hnone
          cases hnone
        | succ k =>
          rw [show i + (k + 1) = i + 1 + k by omega] at hclient
          obtain ⟨j, hj, haccepted⟩ := hrest k (Nat.lt_of_succ_lt_succ hk) hclient
          refine ⟨j + 1, Nat.succ_lt_succ hj, ?_⟩
          rw [show i + (j + 1) = i + 1 + j by omega]
          exact haccepted
      · intro hall
        constructor
        · intro hclient
          obtain ⟨j, hj, -⟩ := hall 0 (Nat.succ_pos retries) hclient
          exact absurd hj (Nat.not_lt_zero j)
        · intro k hk hclient
          rw [show i + 1 + k = i + (k + 1) by omega] at hclient
          obtain ⟨j, hj, haccepted⟩ := hall (k + 1) (Nat.succ_lt_succ hk) hclient
          cases j with
          | zero => exact absurd haccepted hrejected
          | succ j =>
            refine ⟨j, Nat.lt_of_succ_lt_succ hj, ?_⟩
            rw [show i + 1 + j = i + (j + 1) by omega]
            exact haccepted

/-- A call sends at most one request more than its budget of retries. A client error is final
exactly when each 4xx outcome before the last request that the budget allows would come after one
that succeeds, so that its request is not made. -/
theorem apiRequest_clientErrors (env : Browser) (path : String) (options : Options)
    (fetches connects : ℕ → FetchOutcome) (retries : ℕ) (node : String) :
    (apiRequest env path options fetches connects retries 0 node).exchanges.countP Exchange.isApi ≤
        retries + 1 ∧
      (ClientErrorsFinal env (apiRequest env path options fetches connects retries 0 node).result
          (apiRequest env path options fetches connects retries 0 node).exchanges ↔
        ∀ k < retries, (fetches k).IsClientError → ∃ j < k, (fetches j).Accepted env) := by
  refine ⟨countP_isApi_apiRequest retries 0 node, ?_⟩
  rw [clientErrorsFinal_apiRequest]
  simp only [Nat.zero_add]

/-- A browser as far as it reads the empty text, which is no JSON, and writes strings. -/
def emptyTextBrowser : Browser where
  apiProtocol := "http"
  bootstrapNode := "10.0.0.1:80"
  parse _ := .error (.syntaxError "Unexpected end of JSON input")
  toText
    | .string s => s
    | _ => ""

/-- The first response has the status 401 and an empty body. It is retried, and the second one is
accepted. -/
def unauthorizedOnce (i : ℕ) : FetchOutcome := .response (if i = 0 then 401 else 200) (.ok "")

/-- A client error is not final. -/
theorem clientError_retried :
    ¬ClientErrorsFinal emptyTextBrowser
      (apiRequest emptyTextBrowser "/poll" () unauthorizedOnce (fun _ => .response 200 (.ok "")) 1 0
        "10.0.0.2:80").result
      (apiRequest emptyTextBrowser "/poll" () unauthorizedOnce (fun _ => .response 200 (.ok "")) 1 0
        "10.0.0.2:80").exchanges := by
  intro h
  have hfinal := h [] _ _ _ _ _ rfl rfl
  cases hfinal.2

end TaceChat
