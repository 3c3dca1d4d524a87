import TaceChat.Library.StringBytes
import TaceChat.Model.Contacts
import TaceChat.Proofs.Delivery

/-!
# The mailbox of an identity

A message is stored under the hash of the string that the sender has for the recipient
(`messageHandler_storesUnder`), and polled under the hash of the string that the recipient has for
itself (`pollHandler_readsUnder`). In an environment that records the last request, a handler shows
which key it uses (`recorder`), so the two keys are determined. The contact form and the decoding of
public keys accept several spellings of one point. `sameMailbox_iff` says which of them lead to the
polled key.
-/

set_option autoImplicit false

namespace TaceChat

open Network

/-! ### The keys of the handlers -/

/-- The handler stores the value under the key, at the node that it finds for the key. -/
def StoresUnder (handler : ∀ σ : Type, NodeEnv σ → NodeM σ Response) (value : Value)
    (key : NodeId) : Prop :=
  ∀ (σ : Type) (env : NodeEnv σ), handler σ env = storeAtResponsible env key value

/-- The handler answers with what the node that it finds for the key has under the key. -/
def ReadsUnder (handler : ∀ σ : Type, NodeEnv σ → NodeM σ (Response × ChallengeMap))
    (key : NodeId) : Prop :=
  ∃ answer : Option (List Value) → Response × ChallengeMap,
    ∀ (σ : Type) (env : NodeEnv σ), handler σ env = answer <$> retrieveAtResponsible env key

section Handlers

variable {sha1 : List UInt8 → NodeId}

/-- `message_handler` stores under the key of the string `to`. -/
theorem messageHandler_storesUnder {serialize : StoredMessage → Option Value}
    {payload : MessagePayload} {now : ℕ} {value : Value}
    (h : serialize (storedMessage payload now) = some value) :
    StoresUnder (fun _ env => messageHandler env sha1 serialize now (.ok payload)) value
      (generateKey sha1 payload.«to») :=
  fun _ _ => messageHandler_ok h

/-- `poll_handler` reads under the key of the public key that is polled. -/
theorem pollHandler_readsUnder {deserialize : Value → Option StoredMessage}
    {messagesJson : List PollMessage → String} {verify : String → List UInt8 → List UInt8 → Bool}
    {challenges : ChallengeMap} {pollPayload : PollRequestPayload}
    (h : (verifyChallenge verify pollPayload challenges).1 = true) :
    ReadsUnder
      (fun _ env => pollHandler env sha1 deserialize messagesJson verify challenges
        (.ok pollPayload))
      (generateKey sha1 pollPayload.publicKey) := by
  have hcheck : verifyChallenge verify pollPayload challenges =
      (true, (verifyChallenge verify pollPayload challenges).2) := Prod.ext h rfl
  refine ⟨fun messagesData => (⟨.ok, messagesJson ((messagesData.getD []).filterMap fun data =>
    (deserialize data).map fun storedMsg =>
      ⟨storedMsg.«from», storedMsg.ciphertext, storedMsg.nonce, storedMsg.timestamp⟩)⟩,
    (verifyChallenge verify pollPayload challenges).2), fun _ env => ?_⟩
  unfold pollHandler
  dsimp only
  rw [hcheck, map_eq_pure_bind]

end Handlers

/-- The environment of the node 10, whose successor is the node 20 and whose fingers are not
refreshed. Its calls fail, and the last one is recorded. -/
def recorder : NodeEnv (Option DhtMessage) where
  node _ := linkedNode otherOfPair (fun _ => none) (biguintToNodeId 10)
  setNode _ w := w
  callNode _ message := do
    set (some message)
    return none

/-- Whatever the node 10 looks up, it finds the node 20. -/
theorem findSuccessor_recorder (id : NodeId) :
    Returns (findSuccessor recorder id) none
      fun r w => r = infoOf (biguintToNodeId 20) ∧ w = none := by
  have hclosest : (recorder.node none).closestPrecedingNode id = (recorder.node none).info :=
    closestPrecedingNode_unrefreshed (k := M) rfl id
  have hpred : Returns (findPredecessor recorder id) none
      fun r w => r = infoOf (biguintToNodeId 10) ∧ w = none := by
    simp only [findPredecessor, returns_bind, returns_safeLock]
    rw [maxRetries, findPredecessorLoop]
    simp only [nextNode, returns_bind, returns_safeLock, returns_ite, returns_pure, hclosest,
      not_true_eq_false, false_implies, and_true]
    exact ⟨fun _ => rfl, fun _ _ _ => rfl⟩
  refine hpred.bind ?_
  rintro _ _ ⟨rfl, rfl⟩
  simp only [returns_bind, returns_safeLock, returns_ite, returns_pure]
  exact ⟨fun _ => ⟨rfl, trivial⟩, fun h => absurd rfl h⟩

/-- The recorder is sent the `Store` request. -/
theorem storeAtResponsible_recorder (key : NodeId) (value : Value) :
    Returns (storeAtResponsible recorder key value) none
      fun _ w => w = some (.store key value) := by
  refine (findSuccessor_recorder key).bind ?_
  rintro _ _ ⟨rfl, rfl⟩
  simp only [returns_bind, returns_safeLock, returns_ite]
  refine ⟨fun h => absurd h (by decide), fun _ => ?_⟩
  simp [recorder]

/-- The recorder is sent the `Retrieve` request. -/
theorem retrieveAtResponsible_recorder (key : NodeId) :
    Returns (retrieveAtResponsible recorder key) none fun _ w => w = some (.retrieve key) := by
  refine (findSuccessor_recorder key).bind ?_
  rintro _ _ ⟨rfl, rfl⟩
  simp only [returns_bind, returns_safeLock, returns_ite]
  refine ⟨fun h => absurd h (by decide), fun _ => ?_⟩
  simp [recorder]

/-- A handler stores under one key only. -/
theorem StoresUnder.unique {handler : ∀ σ : Type, NodeEnv σ → NodeM σ Response} {value : Value}
    {key key' : NodeId} (h : StoresUnder handler value key) (h' : StoresUnder handler value key') :
    key = key' := by
  have hrun := storeAtResponsible_recorder key value
  rw [← h _ recorder, h' _ recorder] at hrun
  obtain ⟨_, w, -, hw, hw'⟩ := hrun.and (storeAtResponsible_recorder key' value)
  rw [hw] at hw'
  cases hw'
  rfl

/-- So does it read. -/
theorem ReadsUnder.unique {handler : ∀ σ : Type, NodeEnv σ → NodeM σ (Response × ChallengeMap)}
    {key key' : NodeId} (h : ReadsUnder handler key) (h' : ReadsUnder handler key') :
    key = key' := by
  obtain ⟨answer, h⟩ := h
  obtain ⟨answer', h'⟩ := h'
  have hrun : ∀ (key : NodeId) (answer : Option (List Value) → Response × ChallengeMap),
      Returns (answer <$> retrieveAtResponsible recorder key) none
        fun _ w => w = some (.retrieve key) := fun key answer =>
    returns_map.mpr (retrieveAtResponsible_recorder key)
  have hhandler := hrun key answer
  rw [← h _ recorder, h' _ recorder] at hhandler
  obtain ⟨_, w, -, hw, hw'⟩ := hhandler.and (hrun key' answer')
  rw [hw] at hw'
  cases hw'
  rfl

/-- A hash without a collision between two strings tells them apart. -/
theorem generateKey_eq_iff {sha1 : List UInt8 → NodeId} {a b : String}
    (hsha1 : sha1 a.toUTF8.toList = sha1 b.toUTF8.toList → a.toUTF8.toList = b.toUTF8.toList) :
    generateKey sha1 a = generateKey sha1 b ↔ a = b := by
  constructor
  · intro h
    exact String.toUTF8_toList_inj.mp (hsha1 h)
  · intro h
    rw [h]

/-- A posted message is stored under the key that a poll reads. -/
def SameMailbox (sha1 : List UInt8 → NodeId) (serialize : StoredMessage → Option Value)
    (deserialize : Value → Option StoredMessage) (messagesJson : List PollMessage → String)
    (verify : String → List UInt8 → List UInt8 → Bool) (challenges : ChallengeMap) (now : ℕ)
    (payload : MessagePayload) (value : Value) (pollPayload : PollRequestPayload) : Prop :=
  ∃ key,
    StoresUnder (fun _ env => messageHandler env sha1 serialize now (.ok payload)) value key ∧
    ReadsUnder
      (fun _ env => pollHandler env sha1 deserialize messagesJson verify challenges
        (.ok pollPayload))
      key

section

variable {sha1 : List UInt8 → NodeId} {serialize : StoredMessage → Option Value}
  {deserialize : Value → Option StoredMessage} {messagesJson : List PollMessage → String}
  {verify : String → List UInt8 → List UInt8 → Bool} {challenges : ChallengeMap} {now : ℕ}
  {payload : MessagePayload} {value : Value} {pollPayload : PollRequestPayload}

/-- The keys of the two handlers are the hashes of their strings. -/
theorem sameMailbox_iff_generateKey
    (hserialize : serialize (storedMessage payload now) = some value)
    (hverify : (verifyChallenge verify pollPayload challenges).1 = true) :
    SameMailbox sha1 serialize deserialize messagesJson verify challenges now payload value
        pollPayload ↔
      generateKey sha1 payload.«to» = generateKey sha1 pollPayload.publicKey := by
  constructor
  · rintro ⟨key, hstores, hreads⟩
    rw [(messageHandler_storesUnder hserialize).unique hstores]
    exact hreads.unique (pollHandler_readsUnder hverify)
  · intro heq
    refine ⟨_, messageHandler_storesUnder hserialize, ?_⟩
    rw [heq]
    exact pollHandler_readsUnder hverify

end

/-! ### Spellings -/

/-- The contact was entered into the form, and its public key decodes to the point of the key
pair. -/
structure Spelling {Point : Type} (decodePoint : List UInt8 → Option Point) (keys : Keypair)
    (contact : Contact) : Prop where
  added : ∃ now name publicKey contacts,
    addContact now name publicKey contacts = some (contacts ++ [contact])
  samePoint : ∃ point, decodePublicKey decodePoint keys.publicKey = some point ∧
    decodePublicKey decodePoint contact.publicKey = some point

/-- The public key of such a contact spells the bytes of a point. -/
theorem Spelling.hexDecode {Point : Type} {decodePoint : List UInt8 → Option Point}
    {keys : Keypair} {contact : Contact} (h : Spelling decodePoint keys contact) :
    ∃ bytes, TaceChat.hexDecode contact.publicKey = some bytes := by
  obtain ⟨point, -, hcontact⟩ := h.samePoint
  obtain ⟨bytes, hbytes, -⟩ := Option.bind_eq_some_iff.mp hcontact
  exact ⟨bytes, hbytes⟩

/-- A message to a contact whose public key is a spelling of the recipient's point is stored under
the key that the recipient polls if and only if the spelling has no upper-case letter and its
bytes are those of the recipient's public key. -/
theorem sameMailbox_iff {Point : Type} (decodePoint : List UInt8 → Option Point)
    (sha1 : List UInt8 → NodeId) (serialize : StoredMessage → Option Value)
    (deserialize : Value → Option StoredMessage) (messagesJson : List PollMessage → String)
    (verify : String → List UInt8 → List UInt8 → Bool) (challenges : ChallengeMap) (now : ℕ)
    (privateBytes publicBytes : List UInt8) (sender : Keypair) (contact : Contact)
    (ciphertext nonce pollNonce signature : List UInt8) (value : Value)
    (hspelling : Spelling decodePoint (generateKeypair privateBytes publicBytes) contact)
    (hserialize : serialize (storedMessage
      (sendMessagePayload sender contact ciphertext nonce) now) = some value)
    (hverify : (verifyChallenge verify ⟨(generateKeypair privateBytes publicBytes).publicKey,
      pollNonce, signature⟩ challenges).1 = true)
    (hsha1 : sha1 contact.publicKey.toUTF8.toList =
        sha1 (generateKeypair privateBytes publicBytes).publicKey.toUTF8.toList →
      contact.publicKey.toUTF8.toList =
        (generateKeypair privateBytes publicBytes).publicKey.toUTF8.toList) :
    SameMailbox sha1 serialize deserialize messagesJson verify challenges now
        (sendMessagePayload sender contact ciphertext nonce) value
        ⟨(generateKeypair privateBytes publicBytes).publicKey, pollNonce, signature⟩ ↔
      (∀ c ∈ contact.publicKey.toList, c.isUpper = false) ∧
        ∀ bytes, hexDecode contact.publicKey = some bytes → bytes = publicBytes := by
  have hkeys : generateKey sha1 (sendMessagePayload sender contact ciphertext nonce).to =
      generateKey sha1 (generateKeypair privateBytes publicBytes).publicKey ↔
        contact.publicKey = hexEncode publicBytes := generateKey_eq_iff hsha1
  rw [sameMailbox_iff_generateKey hserialize hverify, hkeys, eq_hexEncode_iff]
  -- The public key of a contact decodes, so it spells these bytes or others.
  obtain ⟨bytes, hbytes⟩ := hspelling.hexDecode
  rw [hbytes]
  simp

/-- The uncompressed SEC1 bytes of the base point of P-256, the public key of the private key 1. -/
def basePointBytes : List UInt8 :=
  [0x4, 0x6b, 0x17, 0xd1, 0xf2, 0xe1, 0x2c, 0x42, 0x47, 0xf8, 0xbc, 0xe6, 0xe5, 0x63, 0xa4,
    0x40, 0xf2, 0x77, 0x3, 0x7d, 0x81, 0x2d, 0xeb, 0x33, 0xa0, 0xf4, 0xa1, 0x39, 0x45, 0xd8,
    0x98, 0xc2, 0x96, 0x4f, 0xe3, 0x42, 0xe2, 0xfe, 0x1a, 0x7f, 0x9b, 0x8e, 0xe7, 0xeb, 0x4a,
    0x7c, 0xf, 0x9e, 0x16, 0x2b, 0xce, 0x33, 0x57, 0x6b, 0x31, 0x5e, 0xce, 0xcb, 0xb6, 0x40,
    0x68, 0x37, 0xbf, 0x51, 0xf5]

/-- A contact with the base point in upper-case digits. -/
def upperCaseContact : Contact where
  id := "contact_0"
  name := "Bob"
  publicKey :=
    "046B17D1F2E12C4247F8BCE6E563A440F277037D812DEB33A0F4A13945D898C296" ++
    "4FE342E2FE1A7F9B8EE7EB4A7C0F9E162BCE33576B315ECECBB6406837BF51F5"

/-- What SHA-1 gives for the lower-case digits of the base point, and for any other string here what
it gives for the upper-case ones. -/
def basePointSha1 (bytes : List UInt8) : NodeId :=
  if bytes = (hexEncode basePointBytes).toUTF8.toList then
    #v[0x5c, 0x70, 0xb3, 0xcd, 0x93, 0xa5, 0x9, 0x5e, 0x9b, 0xf3, 0xd9, 0xd2, 0xb1, 0xa, 0xff, 0x5f,
    0xe2, 0xc9, 0x5b, 0x27]
  else
    #v[0xfc, 0x21, 0x62, 0x3d, 0x1f, 0x9d, 0x63, 0xa9, 0x8c, 0x41, 0xa0, 0xd, 0xbf, 0xb3, 0x7f,
    0x4f, 0x7, 0x9d, 0x8b, 0x59]

/-- The decoding of the base point. -/
def decodeBasePoint (bytes : List UInt8) : Option (ℕ × ℕ) :=
  if bytes = basePointBytes then
    some (0x6b17d1f2e12c4247f8bce6e563a440f277037d812deb33a0f4a13945d898c296,
      0x4fe342e2fe1a7f9b8ee7eb4a7c0f9e162bce33576b315ececbb6406837bf51f5)
  else none

/-- The digits of that contact. -/
def upperCaseDigits : List Char :=
  basePointBytes.flatMap fun b =>
    [(hexDigit (b.toNat / 16)).toUpper, (hexDigit (b.toNat % 16)).toUpper]

/-- The characters of the contact are the upper-case digits. -/
theorem toList_upperCaseContact : upperCaseContact.publicKey.toList = upperCaseDigits := by
  have hdigits : upperCaseContact.publicKey = String.ofList upperCaseDigits := by decide +kernel
  rw [hdigits, String.toList_ofList]

/-- Nothing is trimmed where there is no white space. -/
theorem jsTrim_eq_self {s : String} (h : s.toList.any isJsWhiteSpace = false) : jsTrim s = s := by
  have hkeep (l : List Char) (hl : l.any isJsWhiteSpace = false) :
      l.dropWhile isJsWhiteSpace = l := by
    cases l with
    | nil => rfl
    | cons c l =>
      have hc := List.any_eq_false.mp hl c List.mem_cons_self
      simp [hc]
  have hreverse : s.toList.reverse.any isJsWhiteSpace = false := by
    rw [List.any_reverse]
    exact h
  rw [jsTrim, hkeep _ h, hkeep _ hreverse, List.reverse_reverse, String.ofList_toList]

/-- A hex digit is no white space. -/
theorem isJsWhiteSpace_hexDigit {c : Char}
    (h : (('0' ≤ c && c ≤ '9') || ('a' ≤ c && c ≤ 'f') || ('A' ≤ c && c ≤ 'F')) = true) :
    isJsWhiteSpace c = false := by
  have hrange : 0x30 ≤ c.toNat ∧ c.toNat ≤ 0x66 := by
    simp only [Bool.or_eq_true, Bool.and_eq_true, decide_eq_true_eq] at h
    rcases h with (⟨hlow, hhigh⟩ | ⟨hlow, hhigh⟩) | ⟨hlow, hhigh⟩ <;>
    · have hlow := toNat_le_of_le hlow
      have hhigh := toNat_le_of_le hhigh
      exact ⟨le_trans (by decide) hlow, le_trans hhigh (by decide)⟩
  simp [isJsWhiteSpace]
  omega

/-- The form takes a public key that passes its check as it is. -/
theorem addContact_of_publicKeyRegex {publicKey : String} (h : publicKeyRegex publicKey = true) :
    addContact 0 "Bob" publicKey [] = some [⟨"contact_0", "Bob", publicKey⟩] := by
  obtain ⟨hlength, hdigits⟩ := Bool.and_eq_true_iff.mp h
  have hname : jsTrim "Bob" = "Bob" := by decide +kernel
  have htrim : jsTrim publicKey = publicKey := by
    refine jsTrim_eq_self (List.any_eq_false.mpr fun c hc => ?_)
    rw [isJsWhiteSpace_hexDigit (List.all_eq_true.mp hdigits c hc)]
    exact Bool.false_ne_true
  have hempty : publicKey ≠ "" := by
    rintro rfl
    cases hlength
  have hform : "Bob" ≠ "" ∧ publicKey ≠ "" ∧ publicKeyRegex publicKey := ⟨by decide, hempty, h⟩
  have hid : "contact_" ++ toString 0 = "contact_0" := by decide +kernel
  simp only [addContact, htrim, hname, hid, if_pos hform]
  rfl

/-- The upper-case digits are an accepted spelling of the base point. -/
theorem spelling_upperCaseContact (privateBytes : List UInt8) :
    Spelling decodeBasePoint (generateKeypair privateBytes basePointBytes) upperCaseContact where
  added := by
    have hregex : publicKeyRegex upperCaseContact.publicKey = true := by
      rw [publicKeyRegex, toList_upperCaseContact]
      decide +kernel
    exact ⟨0, "Bob", upperCaseContact.publicKey, [], addContact_of_publicKeyRegex hregex⟩
  samePoint := by
    have hupper : hexDecode upperCaseContact.publicKey = some basePointBytes := by
      rw [hexDecode, toList_upperCaseContact]
      decide +kernel
    have hlower : decodePublicKey decodeBasePoint
        (generateKeypair privateBytes basePointBytes).publicKey =
          decodeBasePoint basePointBytes := by
      simp [decodePublicKey, generateKeypair]
    rw [hlower, decodePublicKey, hupper, Option.bind_some]
    exact ⟨_, if_pos rfl, if_pos rfl⟩

/-- The contact is another string than the one that the client polls with. -/
theorem upperCaseContact_ne : upperCaseContact.publicKey ≠ hexEncode basePointBytes := by
  intro heq
  -- The one has an upper-case letter, the other has none.
  have hmem : 'B' ∈ upperCaseContact.publicKey.toList := by
    rw [toList_upperCaseContact]
    decide +kernel
  rw [heq] at hmem
  have hlower : ('B').isUpper = false := isUpper_of_mem_hexEncode hmem
  cases hlower

/-- The contact that is spelled as the recipient spells itself. -/
theorem spelling_own (privateBytes : List UInt8) :
    Spelling decodeBasePoint (generateKeypair privateBytes basePointBytes)
      ⟨"contact_0", "Bob", hexEncode basePointBytes⟩ where
  added := by
    have hregex : publicKeyRegex (hexEncode basePointBytes) = true := by
      rw [publicKeyRegex, hexEncode, String.toList_ofList]
      decide +kernel
    exact ⟨0, "Bob", hexEncode basePointBytes, [], addContact_of_publicKeyRegex hregex⟩
  samePoint := by
    simp [decodePublicKey, generateKeypair, decodeBasePoint]

/-- The nonce of zeros. -/
def zeroNonce : List UInt8 := List.replicate 32 0

/-- The signature that the private key 1 makes of it. -/
def signatureOfZeros : List UInt8 :=
  [0x75, 0xf1, 0xcb, 0xbc, 0x71, 0xa8, 0x74, 0x48, 0x09, 0xd2, 0x60, 0x06, 0x94, 0x60, 0xa5, 0xac,
    0x3b, 0x30, 0x72, 0x2d, 0xb2, 0xd4, 0x79, 0x24, 0xc8, 0x3e, 0xe9, 0xb2, 0x8d, 0x6c, 0x43, 0x41,
    0x3e, 0x49, 0x4f, 0xdd, 0x3e, 0x94, 0x33, 0xa3, 0x4e, 0x87, 0xd4, 0x66, 0x24, 0x8b, 0xbb, 0xd4,
    0x1f, 0x76, 0x88, 0x86, 0x4c, 0xbf, 0x46, 0xbb, 0x68, 0x76, 0x71, 0x8f, 0x37, 0x0f, 0xd9, 0x39]

/-- The verification of that signature. -/
def verifyZeros (publicKey : String) (message signature : List UInt8) : Bool :=
  publicKey = hexEncode basePointBytes && message = zeroNonce && signature = signatureOfZeros

/-- The recipient has been given the nonce of zeros as its challenge. -/
def zeroChallenge : ChallengeMap := fun publicKey =>
  if publicKey = hexEncode basePointBytes then some ⟨zeroNonce, 0⟩ else none

/-- The poll answers its challenge. -/
theorem verifyChallenge_zeros (privateBytes : List UInt8) :
    (verifyChallenge verifyZeros
      ⟨(generateKeypair privateBytes basePointBytes).publicKey, zeroNonce, signatureOfZeros⟩
      zeroChallenge).1 = true := by
  simp [verifyChallenge, zeroChallenge, generateKeypair, verifyZeros]

/-- The bytes of a stored message with empty fields and the time 0: three lengths and the time, in
eight bytes each. -/
def serializeZeros (message : StoredMessage) : Option Value :=
  if message = ⟨"", [], [], 0⟩ then some (List.replicate 32 0) else none

/-- What is read from these bytes. -/
def deserializeZeros (data : Value) : Option StoredMessage :=
  if data = List.replicate 32 0 then some ⟨"", [], [], 0⟩ else none

/-- A message to the upper-case spelling is not stored under the polled key. -/
theorem not_sameMailbox :
    ¬∀ (decodePoint : List UInt8 → Option (ℕ × ℕ)) (sha1 : List UInt8 → NodeId)
      (serialize : StoredMessage → Option Value) (deserialize : Value → Option StoredMessage)
      (messagesJson : List PollMessage → String) (verify : String → List UInt8 → List UInt8 → Bool)
      (challenges : ChallengeMap) (now : ℕ) (privateBytes publicBytes : List UInt8)
      (sender : Keypair) (contact : Contact)
      (ciphertext nonce pollNonce signature : List UInt8) (value : Value),
      Spelling decodePoint (generateKeypair privateBytes publicBytes) contact →
      serialize (storedMessage (sendMessagePayload sender contact ciphertext nonce) now)
        = some value →
      (verifyChallenge verify ⟨(generateKeypair privateBytes publicBytes).publicKey, pollNonce,
        signature⟩ challenges).1 = true →
      (sha1 contact.publicKey.toUTF8.toList =
          sha1 (generateKeypair privateBytes publicBytes).publicKey.toUTF8.toList →
        contact.publicKey.toUTF8.toList =
          (generateKeypair privateBytes publicBytes).publicKey.toUTF8.toList) →
      SameMailbox sha1 serialize deserialize messagesJson verify challenges now
        (sendMessagePayload sender contact ciphertext nonce) value
        ⟨(generateKeypair privateBytes publicBytes).publicKey, pollNonce, signature⟩ := by
  intro h
  -- The two strings differ, and this hash tells them apart.
  have hhash : basePointSha1 upperCaseContact.publicKey.toUTF8.toList ≠
      basePointSha1 (hexEncode basePointBytes).toUTF8.toList := by
    rw [basePointSha1, basePointSha1, if_pos rfl,
      if_neg (fun heq => upperCaseContact_ne (String.toUTF8_toList_inj.mp heq))]
    decide
  have hverify := verifyChallenge_zeros (List.replicate 31 0 ++ [1])
  have hsame := h decodeBasePoint basePointSha1 serializeZeros deserializeZeros (fun _ => "[]")
    verifyZeros zeroChallenge 0 (List.replicate 31 0 ++ [1]) basePointBytes ⟨"", ""⟩
    upperCaseContact [] [] zeroNonce signatureOfZeros (List.replicate 32 0)
    (spelling_upperCaseContact _) rfl hverify
    (fun heq => absurd heq hhash)
  exact hhash ((sameMailbox_iff_generateKey rfl hverify).mp hsame)

/-- The spelling that the recipient itself has leads to its mailbox. -/
theorem sameMailbox_iff_own :
    SameMailbox basePointSha1 serializeZeros deserializeZeros (fun _ => "[]") verifyZeros
      zeroChallenge 0
      (sendMessagePayload ⟨"", ""⟩ ⟨"contact_0", "Bob", hexEncode basePointBytes⟩ [] [])
      (List.replicate 32 0)
      ⟨(generateKeypair (List.replicate 31 0 ++ [1]) basePointBytes).publicKey, zeroNonce,
        signatureOfZeros⟩ := by
  refine (sameMailbox_iff decodeBasePoint basePointSha1 serializeZeros deserializeZeros
    (fun _ => "[]") verifyZeros zeroChallenge 0 (List.replicate 31 0 ++ [1]) basePointBytes ⟨"", ""⟩
    ⟨"contact_0", "Bob", hexEncode basePointBytes⟩ [] [] zeroNonce signatureOfZeros
    (List.replicate 32 0) (spelling_own _) rfl (verifyChallenge_zeros _) (fun _ => rfl)).mpr ?_
  refine ⟨fun c hc => isUpper_of_mem_hexEncode hc, fun bytes hbytes => ?_⟩
  rw [hexDecode_hexEncode] at hbytes
  exact (Option.some.inj hbytes).symm

end TaceChat
