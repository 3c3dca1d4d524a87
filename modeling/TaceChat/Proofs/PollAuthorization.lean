import TaceChat.Model.Polling

/-!
# Which polls are authorized

`outstanding` reads from the requests of a run which challenge of a public key is open: the last one
that was issued for it, unless a poll has used it up. `challengesAfter_some` says that the map of
the node holds open challenges only. So a poll that passes the check presents the nonce of the open
challenge of its own key (`authorized_iff`), and with nonces that never repeat no nonce authorizes
two polls (`Spent`).

The map forgets an open challenge only in the sweep of a challenge request. `polls_fresh_iff` says
when this keeps old challenges from authorizing polls.
-/

set_option autoImplicit false

namespace TaceChat

variable (verify : String → List UInt8 → List UInt8 → Bool)

/-- The challenge that the request issues for the key. -/
def TimedRequest.issued (publicKey : String) : TimedRequest → Option Challenge
  | ⟨now, .challenge query nonce⟩ =>
    if publicKeyParameter query = some publicKey then some ⟨nonce, now⟩ else none
  | ⟨_, .poll _⟩ => none

/-- The request is an authorized poll for the key, which uses up its challenge. -/
def TimedRequest.Uses (publicKey : String) (earlier : List TimedRequest) : TimedRequest → Prop
  | ⟨_, .poll (.ok p)⟩ => p.publicKey = publicKey ∧ Authorized verify earlier p
  | ⟨_, .poll (.error _)⟩ => False
  | ⟨_, .challenge _ _⟩ => False

/-- Whether a request uses up the challenge can be computed. -/
instance (publicKey : String) (earlier : List TimedRequest) : (r : TimedRequest) →
    Decidable (r.Uses verify publicKey earlier)
  | ⟨_, .poll (.ok p)⟩ =>
    inferInstanceAs (Decidable (p.publicKey = publicKey ∧ Authorized verify earlier p))
  | ⟨_, .poll (.error _)⟩ => inferInstanceAs (Decidable False)
  | ⟨_, .challenge _ _⟩ => inferInstanceAs (Decidable False)

/-- The request sweeps away the challenges that were issued at the time or before. -/
def TimedRequest.Sweeps (issued : ℕ) : TimedRequest → Prop
  | ⟨now, .challenge query _⟩ =>
    (publicKeyParameter query).isSome ∧ issued + challengeExpiration ≤ now
  | ⟨_, .poll _⟩ => False

/-- Whether a request sweeps the challenge away can be computed. -/
instance (issued : ℕ) : (r : TimedRequest) → Decidable (r.Sweeps issued)
  | ⟨now, .challenge query _⟩ =>
    inferInstanceAs
      (Decidable ((publicKeyParameter query).isSome ∧ issued + challengeExpiration ≤ now))
  | ⟨_, .poll _⟩ => inferInstanceAs (Decidable False)

/-- The last challenge that was issued for the key, unless an authorized poll has used it up. -/
def outstanding (publicKey : String) : List TimedRequest → Option Challenge
  | [] => none
  | r :: earlier =>
    if r.Uses verify publicKey earlier then none
    else (r.issued publicKey).or (outstanding publicKey earlier)

/-- The nonce that the request draws. -/
def TimedRequest.issuedNonce : TimedRequest → Option (List UInt8)
  | ⟨_, .challenge query nonce⟩ => if (publicKeyParameter query).isSome then some nonce else none
  | ⟨_, .poll _⟩ => none

/-- The nonces that the requests have drawn. -/
def issuedNonces (requests : List TimedRequest) : List (List UInt8) :=
  requests.filterMap TimedRequest.issuedNonce

/-- A poll with the nonce was authorized. -/
def Spent (nonce : List UInt8) (requests : List TimedRequest) : Prop :=
  ∃ later now p earlier, requests = later ++ ⟨now, .poll (.ok p)⟩ :: earlier ∧
    Authorized verify earlier p ∧ p.nonce = nonce

/-- One of the requests has swept away the challenges of that time. -/
def Swept (issued : ℕ) (requests : List TimedRequest) : Prop :=
  ∃ r ∈ requests, r.Sweeps issued

/-- The requests of a run come one after the other, the last one first in the list. -/
def Chronological (requests : List TimedRequest) : Prop :=
  requests.Pairwise fun later earlier => earlier.now ≤ later.now

/-! ### The check of a poll -/

variable {verify} {challenges : ChallengeMap} {p : PollRequestPayload} {publicKey : String}
  {earlier : List TimedRequest} {c : Challenge}

/-- A poll passes when its key has a challenge with its nonce and the signature is valid. -/
theorem verifyChallenge_fst : (verifyChallenge verify p challenges).1 = true ↔
    (∃ issued, challenges p.publicKey = some ⟨p.nonce, issued⟩) ∧
      verify p.publicKey p.nonce p.signature = true := by
  unfold verifyChallenge
  cases hc : challenges p.publicKey with
  | none => simp
  | some challenge =>
    obtain ⟨nonce, issued⟩ := challenge
    by_cases hnonce : nonce = p.nonce
    · subst hnonce
      by_cases hverify : verify p.publicKey p.nonce p.signature = true
      · simp [hverify]
      · simp [hverify]
    · simp [hnonce]

/-- A poll changes the challenge of its own key only, and only when it passes. -/
theorem verifyChallenge_snd (publicKey : String) :
    (verifyChallenge verify p challenges).2 publicKey =
      if p.publicKey = publicKey ∧ (verifyChallenge verify p challenges).1 = true then none
      else challenges publicKey := by
  unfold verifyChallenge
  cases hc : challenges p.publicKey with
  | none => simp
  | some challenge =>
    by_cases hnonce : challenge.nonce = p.nonce
    · by_cases hverify : verify p.publicKey p.nonce p.signature = true
      · by_cases hkey : publicKey = p.publicKey
        · simp [hnonce, hverify, hkey]
        · simp [hnonce, hverify, hkey, Ne.symm hkey]
      · simp [hnonce, hverify]
    · simp [hnonce]

/-- A challenge request sets the challenge of its own key, and removes expired challenges. -/
theorem getChallengeHandler_snd {query : Option String} {key : String}
    (hquery : publicKeyParameter query = some key) (nonce : List UInt8) (now : ℕ)
    (publicKey : String) :
    (getChallengeHandler query nonce now challenges).2 publicKey =
      if publicKey = key then some ⟨nonce, now⟩ else challenges.retainFresh now publicKey := by
  simp only [getChallengeHandler, hquery]
  rw [Function.update_apply]

/-- A request without a public key changes no challenge. -/
theorem getChallengeHandler_missing {query : Option String}
    (hquery : publicKeyParameter query = none) (nonce : List UInt8) (now : ℕ) :
    (getChallengeHandler query nonce now challenges).2 = challenges := by
  simp only [getChallengeHandler, hquery]

/-- A challenge stays in the map while it is younger than a minute. -/
theorem retainFresh_eq (now : ℕ) (publicKey : String) : challenges.retainFresh now publicKey =
    (challenges publicKey).filter fun c => now < c.timestamp + challengeExpiration := by
  have hpos : 0 < challengeExpiration := by decide
  have hage : ∀ issued : ℕ, now - issued < challengeExpiration ↔
      now < issued + challengeExpiration := by
    intro issued
    omega
  simp only [ChallengeMap.retainFresh, hage]

/-- A filter that keeps everything. -/
@[simp] theorem filter_const_true (o : Option Challenge) : o.filter (fun _ => true) = o := by
  cases o <;> rfl

section PollHandler

variable {σ : Type} (env : NodeEnv σ) (sha1 : List UInt8 → NodeId)
  (deserialize : Value → Option StoredMessage) (messagesJson : List PollMessage → String)

/-- What a poll that is answered does to the challenges, and that it is answered with messages if
and only if it passes the check. -/
theorem pollHandler_run {request : Except BodyError PollRequestPayload} {w w' : σ}
    {response : Response} {challenges' : ChallengeMap}
    (hrun : (pollHandler env sha1 deserialize messagesJson verify challenges request).run w =
      some ((response, challenges'), w')) (now : ℕ) :
    challenges' = TimedRequest.serve verify ⟨now, .poll request⟩ challenges ∧
      (response.status = .ok ↔
        ∃ p, request = .ok p ∧ (verifyChallenge verify p challenges).1 = true) := by
  cases request with
  | error e =>
    -- An unreadable body is answered before the map is locked.
    cases e <;>
    · cases hrun
      simp [TimedRequest.serve]
  | ok p =>
    have hcheck : verifyChallenge verify p challenges =
        ((verifyChallenge verify p challenges).1, (verifyChallenge verify p challenges).2) := rfl
    cases hvalid : (verifyChallenge verify p challenges).1 with
    | false =>
      rw [hvalid] at hcheck
      unfold pollHandler at hrun
      dsimp only at hrun
      rw [hcheck] at hrun
      cases hrun
      simp [TimedRequest.serve, hvalid]
    | true =>
      rw [hvalid] at hcheck
      unfold pollHandler at hrun
      dsimp only at hrun
      rw [hcheck] at hrun
      -- The messages are read from the store after the check, and the map does not change any more.
      obtain ⟨⟨messagesData, w''⟩, -, hend⟩ := Option.bind_eq_some_iff.mp hrun
      cases hend
      simp [TimedRequest.serve, hvalid]

/-- A poll that does not pass the check touches no node. -/
theorem pollHandler_refused {w : σ} (hrefused : (verifyChallenge verify p challenges).1 = false) :
    (pollHandler env sha1 deserialize messagesJson verify challenges (.ok p)).run w =
      some ((⟨.unauthorized, jsonObject "error" "Invalid challenge response"⟩, challenges), w) := by
  have hkept : (verifyChallenge verify p challenges).2 = challenges := by
    funext publicKey
    simp [verifyChallenge_snd, hrefused]
  have hcheck : verifyChallenge verify p challenges = (false, challenges) :=
    Prod.ext hrefused hkept
  unfold pollHandler
  dsimp only
  rw [hcheck]
  rfl

end PollHandler

/-! ### What one request does -/

/-- The challenge of a key after one request: none when the request has used it up, the new one
when the request has issued one, and otherwise the old one unless the request has swept it. -/
theorem challengesAfter_cons (publicKey : String) (r : TimedRequest) :
    challengesAfter verify (r :: earlier) publicKey =
      if r.Uses verify publicKey earlier then none
      else (r.issued publicKey).or
        ((challengesAfter verify earlier publicKey).filter fun c => ¬r.Sweeps c.timestamp) := by
  obtain ⟨now, request⟩ := r
  cases request with
  | challenge query nonce =>
    show (getChallengeHandler query nonce now (challengesAfter verify earlier)).2 publicKey = _
    cases hquery : publicKeyParameter query with
    | none =>
      -- A request without a key is refused before the map is locked, so it sweeps nothing.
      rw [getChallengeHandler_missing hquery]
      simp [TimedRequest.issued, TimedRequest.Uses, TimedRequest.Sweeps, hquery]
    | some key =>
      rw [getChallengeHandler_snd hquery]
      by_cases hkey : publicKey = key
      · simp [TimedRequest.issued, TimedRequest.Uses, hquery, hkey]
      · -- The sweep keeps exactly the challenges that have not expired.
        simp [TimedRequest.issued, TimedRequest.Uses, TimedRequest.Sweeps, hquery, hkey,
          Ne.symm hkey, retainFresh_eq]
  | poll request =>
    cases request with
    | error e =>
      simp [challengesAfter, TimedRequest.serve, TimedRequest.issued, TimedRequest.Uses,
        TimedRequest.Sweeps]
    | ok p =>
      show (verifyChallenge verify p (challengesAfter verify earlier)).2 publicKey = _
      rw [verifyChallenge_snd]
      simp [TimedRequest.issued, TimedRequest.Uses, TimedRequest.Sweeps, Authorized]

/-- The challenge that the node holds for a key is the open one. -/
theorem challengesAfter_some : ∀ {requests : List TimedRequest} {c : Challenge},
    challengesAfter verify requests publicKey = some c →
      outstanding verify publicKey requests = some c := by
  intro requests
  induction requests with
  | nil =>
    intro c hc
    cases hc
  | cons r earlier ih =>
    intro c hc
    rw [challengesAfter_cons] at hc
    rw [outstanding]
    by_cases huse : r.Uses verify publicKey earlier
    · -- The poll has removed the challenge, and the open one is used up too.
      rw [if_pos huse] at hc
      cases hc
    · rw [if_neg huse, Option.or_eq_some_iff, Option.filter_eq_some_iff] at hc
      rw [if_neg huse, Option.or_eq_some_iff]
      -- A challenge that is held was issued just now, or it was held before. The sweep only removes
      -- some of the latter.
      obtain hissued | ⟨hnone, hheld, -⟩ := hc
      · exact Or.inl hissued
      · exact Or.inr ⟨hnone, ih hheld⟩

/-- An open challenge after a request was issued by it, or it was open before and the request has
neither replaced nor used it. -/
theorem outstanding_cons {r : TimedRequest} :
    outstanding verify publicKey (r :: earlier) = some c ↔
      ¬r.Uses verify publicKey earlier ∧ (r.issued publicKey = some c ∨
        r.issued publicKey = none ∧ outstanding verify publicKey earlier = some c) := by
  rw [outstanding]
  by_cases huse : r.Uses verify publicKey earlier
  · simp [huse]
  · simp [huse, Option.or_eq_some_iff]

/-- A request that issues a challenge issues it now, and draws its nonce. -/
theorem issued_some {r : TimedRequest} (h : r.issued publicKey = some c) :
    c.timestamp = r.now ∧ r.issuedNonce = some c.nonce := by
  obtain ⟨now, request⟩ := r
  cases request with
  | challenge query nonce =>
    by_cases hquery : publicKeyParameter query = some publicKey
    · simp only [TimedRequest.issued, if_pos hquery, Option.some.injEq] at h
      subst h
      simp [TimedRequest.issuedNonce, hquery]
    · simp [TimedRequest.issued, hquery] at h
  | poll request => cases h

/-- A request issues a challenge for one key only. -/
theorem issued_key {r : TimedRequest} {publicKey' : String} {c' : Challenge}
    (h : r.issued publicKey = some c) (h' : r.issued publicKey' = some c') :
    publicKey = publicKey' := by
  obtain ⟨now, request⟩ := r
  cases request with
  | challenge query nonce =>
    simp only [TimedRequest.issued, Option.ite_none_right_eq_some] at h h'
    exact Option.some.inj (h.1.symm.trans h'.1)
  | poll request => cases h

/-- A challenge that is swept away is a minute old. -/
theorem TimedRequest.Sweeps.expired {r : TimedRequest} {issued : ℕ} (h : r.Sweeps issued) :
    issued + challengeExpiration ≤ r.now := by
  obtain ⟨now, request⟩ := r
  cases request with
  | challenge query nonce => exact h.2
  | poll request => cases h

/-! ### Nonces that never repeat -/

/-- An open challenge has been issued for its key. -/
theorem outstanding_issued : ∀ {requests : List TimedRequest} {c : Challenge},
    outstanding verify publicKey requests = some c →
      ∃ r ∈ requests, r.issued publicKey = some c := by
  intro requests
  induction requests with
  | nil =>
    intro c hc
    cases hc
  | cons r earlier ih =>
    intro c hc
    obtain ⟨-, hissued | ⟨-, hearlier⟩⟩ := outstanding_cons.mp hc
    · exact ⟨r, List.mem_cons_self, hissued⟩
    · obtain ⟨r', hmem, hissued⟩ := ih hearlier
      exact ⟨r', List.mem_cons_of_mem r hmem, hissued⟩

/-- The nonce of an open challenge has been drawn. -/
theorem nonce_mem_issuedNonces (hc : outstanding verify publicKey earlier = some c) :
    c.nonce ∈ issuedNonces earlier := by
  obtain ⟨r, hmem, hissued⟩ := outstanding_issued hc
  exact List.mem_filterMap.mpr ⟨r, hmem, (issued_some hissued).2⟩

/-- An authorized poll presents the nonce of the open challenge of its key, and a valid
signature. -/
theorem Authorized.outstanding (h : Authorized verify earlier p) :
    (∃ issued, outstanding verify p.publicKey earlier = some ⟨p.nonce, issued⟩) ∧
      verify p.publicKey p.nonce p.signature = true := by
  obtain ⟨⟨issued, hheld⟩, hverify⟩ := verifyChallenge_fst.mp h
  exact ⟨⟨issued, challengesAfter_some hheld⟩, hverify⟩

/-- A nonce that has authorized a poll was drawn before it. -/
theorem Spent.mem_issuedNonces {nonce : List UInt8} {requests : List TimedRequest}
    (h : Spent verify nonce requests) : nonce ∈ issuedNonces requests := by
  obtain ⟨later, now, p, earlier, rfl, hauth, rfl⟩ := h
  obtain ⟨⟨issued, hopen⟩, -⟩ := hauth.outstanding
  have hdrawn := nonce_mem_issuedNonces hopen
  simp only [issuedNonces, List.filterMap_append, List.filterMap_cons] at hdrawn ⊢
  exact List.mem_append_right _ hdrawn

/-- A nonce is spent after a request when the request is an authorized poll with it, or when it
was spent before. -/
theorem spent_cons {nonce : List UInt8} {r : TimedRequest} (h : Spent verify nonce (r :: earlier)) :
    (∃ now p, r = ⟨now, .poll (.ok p)⟩ ∧ Authorized verify earlier p ∧ p.nonce = nonce) ∨
      Spent verify nonce earlier := by
  obtain ⟨later, now, p, earlier', heq, hauth, hnonce⟩ := h
  cases later with
  | nil =>
    cases heq
    exact Or.inl ⟨now, p, rfl, hauth, hnonce⟩
  | cons r' later =>
    cases heq
    exact Or.inr ⟨later, now, p, earlier', rfl, hauth, hnonce⟩

/-- The nonces before a request are distinct, and a nonce that it draws is new. -/
theorem issuedNonces_cons {r : TimedRequest} (h : (issuedNonces (r :: earlier)).Nodup) :
    (issuedNonces earlier).Nodup ∧
      ∀ nonce, r.issuedNonce = some nonce → nonce ∉ issuedNonces earlier := by
  rw [issuedNonces, List.filterMap_cons] at h
  cases hnonce : r.issuedNonce with
  | none =>
    rw [hnonce] at h
    exact ⟨h, fun nonce hsome => by cases hsome⟩
  | some drawn =>
    rw [hnonce] at h
    obtain ⟨hnew, hnodup⟩ := List.nodup_cons.mp h
    refine ⟨hnodup, ?_⟩
    intro nonce hsome
    cases hsome
    exact hnew

/-- Different keys have open challenges with different nonces. -/
theorem outstanding_key : ∀ {requests : List TimedRequest} {publicKey publicKey' : String}
    {c c' : Challenge}, (issuedNonces requests).Nodup →
    outstanding verify publicKey requests = some c →
    outstanding verify publicKey' requests = some c' → c.nonce = c'.nonce →
      publicKey = publicKey' := by
  intro requests
  induction requests with
  | nil =>
    intro publicKey publicKey' c c' _ hc
    cases hc
  | cons r earlier ih =>
    intro publicKey publicKey' c c' hnodup hc hc' hnonce
    -- Induction on the requests. The last one draws a new nonce, so it cannot issue the nonce of an
    -- older challenge.
    obtain ⟨hearlier, hnew⟩ := issuedNonces_cons hnodup
    obtain ⟨-, hissued | ⟨-, hold⟩⟩ := outstanding_cons.mp hc
    · obtain ⟨-, hissued' | ⟨-, hold'⟩⟩ := outstanding_cons.mp hc'
      · exact issued_key hissued hissued'
      · -- The other challenge is older, so its nonce was drawn before.
        have hdrawn := nonce_mem_issuedNonces hold'
        rw [← hnonce] at hdrawn
        exact absurd hdrawn (hnew c.nonce (issued_some hissued).2)
    · obtain ⟨-, hissued' | ⟨-, hold'⟩⟩ := outstanding_cons.mp hc'
      · have hdrawn := nonce_mem_issuedNonces hold
        rw [hnonce] at hdrawn
        exact absurd hdrawn (hnew c'.nonce (issued_some hissued').2)
      · exact ih hearlier hold hold' hnonce

/-- The nonce of an open challenge has authorized no poll. -/
theorem not_spent_of_outstanding : ∀ {requests : List TimedRequest} {c : Challenge},
    (issuedNonces requests).Nodup → outstanding verify publicKey requests = some c →
      ¬Spent verify c.nonce requests := by
  intro requests
  induction requests with
  | nil =>
    intro c _ hc
    cases hc
  | cons r earlier ih =>
    intro c hnodup hc hspent
    obtain ⟨hearlier, hnew⟩ := issuedNonces_cons hnodup
    obtain ⟨hunused, hissued | ⟨-, hold⟩⟩ := outstanding_cons.mp hc
    · -- A nonce that was drawn just now has authorized nothing before.
      obtain ⟨now, p, rfl, -⟩ | hspent := spent_cons hspent
      · cases hissued
      · exact hnew c.nonce (issued_some hissued).2 hspent.mem_issuedNonces
    · obtain ⟨now, p, rfl, hauth, hnonce⟩ | hspent := spent_cons hspent
      · -- The poll presents the nonce of its own key's open challenge, so the keys agree.
        obtain ⟨⟨issued, hopen⟩, -⟩ := hauth.outstanding
        have hkey : p.publicKey = publicKey := outstanding_key hearlier hopen hold hnonce
        exact hunused ⟨hkey, hauth⟩
      · exact ih hearlier hold hspent

/-! ### The authorization of polls -/

/-- A request that neither issues a challenge for the key nor is an authorized poll for it leaves
the key's challenge as it was, or removes it when it has expired. -/
theorem challengesAfter_frame {r : TimedRequest} (hissued : r.issued publicKey = none)
    (huse : ¬r.Uses verify publicKey earlier) :
    challengesAfter verify (r :: earlier) publicKey = challengesAfter verify earlier publicKey ∨
      challengesAfter verify (r :: earlier) publicKey = none ∧
        ∃ c, challengesAfter verify earlier publicKey = some c ∧
          c.timestamp + challengeExpiration ≤ r.now := by
  rw [challengesAfter_cons, if_neg huse, hissued, Option.none_or]
  cases hheld : challengesAfter verify earlier publicKey with
  | none => exact Or.inl rfl
  | some c =>
    by_cases hsweep : r.Sweeps c.timestamp
    · have hexpired : c.timestamp + challengeExpiration ≤ r.now := hsweep.expired
      exact Or.inr ⟨by simp [hsweep], c, rfl, hexpired⟩
    · exact Or.inl (by simp [hsweep])

variable (verify) in
/-- In every run whose nonces never repeat, an authorized poll presents the nonce of the last
challenge of its own key that was issued and not used up, with a valid signature of that nonce. No
nonce authorizes two polls. A request other than a challenge request for the key or an authorized
poll for it changes the key's challenge only by removing it when it has expired. -/
theorem poll_authorization (requests : List TimedRequest)
    (hnonces : (issuedNonces requests).Nodup) :
    (∀ later now p earlier, requests = later ++ ⟨now, .poll (.ok p)⟩ :: earlier →
      Authorized verify earlier p →
        (∃ issued, outstanding verify p.publicKey earlier = some ⟨p.nonce, issued⟩) ∧
          verify p.publicKey p.nonce p.signature = true) ∧
    (∀ later now p between now' p' earlier,
      requests = later ++ ⟨now, .poll (.ok p)⟩ :: (between ++ ⟨now', .poll (.ok p')⟩ :: earlier) →
      Authorized verify (between ++ ⟨now', .poll (.ok p')⟩ :: earlier) p →
      Authorized verify earlier p' → p.nonce ≠ p'.nonce) ∧
    (∀ later r earlier publicKey, requests = later ++ r :: earlier →
      r.issued publicKey = none → ¬r.Uses verify publicKey earlier →
        challengesAfter verify (r :: earlier) publicKey =
            challengesAfter verify earlier publicKey ∨
          challengesAfter verify (r :: earlier) publicKey = none ∧
            ∃ c, challengesAfter verify earlier publicKey = some c ∧
              c.timestamp + challengeExpiration ≤ r.now) := by
  refine ⟨?_, ?_, ?_⟩
  · intro later now p earlier _ hauth
    exact hauth.outstanding
  · intro later now p between now' p' earlier hrequests hauth hauth' hnonce
    obtain ⟨⟨issued, hopen⟩, -⟩ := hauth.outstanding
    -- The nonce of the later poll is the one of an open challenge, which the earlier poll would
    -- have spent.
    have hbefore : (issuedNonces (between ++ ⟨now', .poll (.ok p')⟩ :: earlier)).Nodup := by
      rw [hrequests, issuedNonces, List.filterMap_append] at hnonces
      exact (List.nodup_append.mp hnonces).2.1
    have hspent : Spent verify p.nonce (between ++ ⟨now', .poll (.ok p')⟩ :: earlier) :=
      ⟨between, now', p', earlier, rfl, hauth', hnonce.symm⟩
    exact not_spent_of_outstanding hbefore hopen hspent
  · intro later r earlier publicKey _ hissued huse
    exact challengesAfter_frame hissued huse

/-- One challenge and one poll with it. -/
theorem poll_authorization_single :
    (issuedNonces [⟨1, .poll (.ok ⟨"04ab", [7], []⟩)⟩,
      ⟨0, .challenge (some "public_key=04ab") [7]⟩]).Nodup ∧
    Authorized (fun _ _ _ => true) [⟨0, .challenge (some "public_key=04ab") [7]⟩]
      ⟨"04ab", [7], []⟩ ∧
    (∃ issued, outstanding (fun _ _ _ => true) "04ab"
      [⟨0, .challenge (some "public_key=04ab") [7]⟩] = some ⟨[7], issued⟩) := by
  have hnonces : (issuedNonces [⟨1, .poll (.ok ⟨"04ab", [7], []⟩)⟩,
      ⟨0, .challenge (some "public_key=04ab") [7]⟩]).Nodup := by
    decide
  have hauth : Authorized (fun _ _ _ => true) [⟨0, .challenge (some "public_key=04ab") [7]⟩]
      ⟨"04ab", [7], []⟩ := by
    decide
  have hsound := (poll_authorization (fun _ _ _ => true) _ hnonces).1
  exact ⟨hnonces, hauth, (hsound [] 1 ⟨"04ab", [7], []⟩ _ rfl hauth).1⟩

/-! ### The expiration of challenges -/

/-- After requests in the order of their times, the node holds the open challenges that no request
has swept away. -/
theorem challengesAfter_iff : ∀ {requests : List TimedRequest} {c : Challenge},
    Chronological requests → (challengesAfter verify requests publicKey = some c ↔
      outstanding verify publicKey requests = some c ∧ ¬Swept c.timestamp requests) := by
  intro requests
  induction requests with
  | nil =>
    intro c _
    simp [challengesAfter, outstanding]
  | cons r earlier ih =>
    intro c htimes
    obtain ⟨hlast, hearlier⟩ := List.pairwise_cons.mp htimes
    have hswept : Swept c.timestamp (r :: earlier) ↔
        r.Sweeps c.timestamp ∨ Swept c.timestamp earlier := by
      simp [Swept]
    -- A challenge that was just issued is too young to be swept by a request until now.
    have hyoung : r.issued publicKey = some c → ¬Swept c.timestamp (r :: earlier) := by
      intro hissued hsome
      obtain ⟨r', hmem, hsweep⟩ := hsome
      have hnow : c.timestamp = r.now := (issued_some hissued).1
      have hpos : 0 < challengeExpiration := by decide
      have hexpired := hsweep.expired
      rcases List.mem_cons.mp hmem with rfl | hmem'
      · omega
      · have hle : r'.now ≤ r.now := hlast r' hmem'
        omega
    rw [challengesAfter_cons, outstanding_cons, hswept]
    -- An authorized poll removes the challenge on both sides.
    by_cases huse : r.Uses verify publicKey earlier
    · simp [huse]
    · rw [if_neg huse, Option.or_eq_some_iff, Option.filter_eq_some_iff, ih hearlier]
      have hnew := hyoung
      rw [hswept] at hnew
      simp only [decide_not, Bool.not_eq_true', decide_eq_false_iff_not]
      tauto

variable (verify) in
/-- No poll of a run is authorized with a challenge of a minute or more if and only if every poll
with the nonce of its key's open challenge and a valid signature, a minute or more after the issue
of that challenge, comes after a challenge request that was a minute or more after the issue too. -/
theorem polls_fresh_iff (requests : List TimedRequest) (htimes : Chronological requests) :
    (∀ later now p earlier, requests = later ++ ⟨now, .poll (.ok p)⟩ :: earlier →
      Authorized verify earlier p → ∀ c, challengesAfter verify earlier p.publicKey = some c →
        now < c.timestamp + challengeExpiration) ↔
    ∀ later now p earlier, requests = later ++ ⟨now, .poll (.ok p)⟩ :: earlier →
      ∀ issued, outstanding verify p.publicKey earlier = some ⟨p.nonce, issued⟩ →
        verify p.publicKey p.nonce p.signature = true → issued + challengeExpiration ≤ now →
          Swept issued earlier := by
  have hbefore : ∀ later r earlier, requests = later ++ r :: earlier → Chronological earlier := by
    intro later r earlier hrequests
    rw [hrequests] at htimes
    exact (List.pairwise_append.mp htimes).2.1.of_cons
  constructor
  · intro hfresh later now p earlier hrequests issued hopen hverify hlate
    by_contra hswept
    -- The open challenge was not swept, so the node still holds it and the poll passes.
    have hheld : challengesAfter verify earlier p.publicKey = some ⟨p.nonce, issued⟩ :=
      (challengesAfter_iff (hbefore _ _ _ hrequests)).mpr ⟨hopen, hswept⟩
    have hauth : Authorized verify earlier p := verifyChallenge_fst.mpr ⟨⟨issued, hheld⟩, hverify⟩
    have hyoung := hfresh later now p earlier hrequests hauth _ hheld
    exact absurd hlate (Nat.not_le.mpr hyoung)
  · intro hsweeps later now p earlier hrequests hauth c hheld
    by_contra hlate
    obtain ⟨⟨issued, hpresented⟩, hverify⟩ := verifyChallenge_fst.mp hauth
    rw [hheld, Option.some.injEq] at hpresented
    subst hpresented
    -- The challenge that the poll has passed with is an open one that no request has swept.
    obtain ⟨hopen, hunswept⟩ := (challengesAfter_iff (hbefore _ _ _ hrequests)).mp hheld
    exact hunswept (hsweeps later now p earlier hrequests issued hopen hverify
      (Nat.not_lt.mp hlate))

/-- A poll 100 seconds after its challenge is authorized when no other request came in between. -/
theorem not_polls_fresh :
    ¬∀ verify requests, Chronological requests →
      ∀ later now p earlier, requests = later ++ ⟨now, .poll (.ok p)⟩ :: earlier →
        Authorized verify earlier p → ∀ c, challengesAfter verify earlier p.publicKey = some c →
          now < c.timestamp + challengeExpiration := by
  intro h
  have hlate := h (fun _ _ _ => true)
    [⟨100 * 1000000000, .poll (.ok ⟨"04ab", [7], []⟩)⟩,
      ⟨0, .challenge (some "public_key=04ab") [7]⟩] (by simp [Chronological])
    [] (100 * 1000000000) ⟨"04ab", [7], []⟩ [⟨0, .challenge (some "public_key=04ab") [7]⟩] rfl
    (by decide) ⟨[7], 0⟩ (by decide)
  exact absurd hlate (by decide)

/-- A poll one second after its challenge. -/
theorem polls_fresh_iff_single :
    Chronological [⟨1000000000, .poll (.ok ⟨"04ab", [7], []⟩)⟩,
      ⟨0, .challenge (some "public_key=04ab") [7]⟩] ∧
    ∀ later now p earlier,
      [⟨1000000000, .poll (.ok ⟨"04ab", [7], []⟩)⟩,
        ⟨0, .challenge (some "public_key=04ab") [7]⟩] =
        later ++ (⟨now, .poll (.ok p)⟩ : TimedRequest) :: earlier →
      Authorized (fun _ _ _ => true) earlier p →
        ∀ c, challengesAfter (fun _ _ _ => true) earlier p.publicKey = some c →
          now < c.timestamp + challengeExpiration := by
  have htimes : Chronological [⟨1000000000, .poll (.ok ⟨"04ab", [7], []⟩)⟩,
      ⟨0, .challenge (some "public_key=04ab") [7]⟩] := by
    simp [Chronological]
  refine ⟨htimes, (polls_fresh_iff (fun _ _ _ => true) _ htimes).mpr ?_⟩
  intro later now p earlier hrequests issued hopen hverify hlate
  -- The only poll comes after one second, and an expired challenge is a minute old.
  have hnow : now ≤ 1000000000 := by
    have hmem : (⟨now, .poll (.ok p)⟩ : TimedRequest) ∈ later ++ ⟨now, .poll (.ok p)⟩ :: earlier :=
      List.mem_append_right later List.mem_cons_self
    rw [← hrequests] at hmem
    rcases List.mem_cons.mp hmem with heq | hmem
    · exact le_of_eq (congrArg TimedRequest.now heq)
    · simp at hmem
  have hexpiration : challengeExpiration = 60000000000 := by decide
  omega

end TaceChat
