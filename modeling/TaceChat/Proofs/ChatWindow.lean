import TaceChat.Proofs.Conversations

/-!
# The text in the chat window

`chat_window_faithful`: as long as nobody posts in the name of a user, the chat window with another
user shows what this user has written to it, whatever the users do and in whatever order. The server
and the nodes check no sender, so this cannot be left out.

`chat_window_authentic`: anybody may post anything, including what users have encrypted, once more
and in anybody's name. When nothing decrypts with the secret that two users share but what was
encrypted with it (`Unforged`), the chat window with another user shows the error text or what was
written with the secret that the two share.
-/

set_option autoImplicit false

namespace TaceChat

/-! ### The chat window -/

section Window

variable {User : Type} {c : Crates} {fromUtf8Lossy : List UInt8 → String} {keys : User → Keypair}
  {written : List (Written User)} {posted : List (String × StoredMessage)} {user : User}
  {self : ChatClient} {contact : Contact} {e : ShownMessage}

/-- The window shows the conversation of the contact that is selected. -/
theorem ChatClient.chatWindow_eq (hactive : self.activeContact = some contact) :
    self.chatWindow = self.conversation contact.id := by
  have hid := (mem_of_activeContact hactive).2
  rw [chatWindow, hactive, activeConversationId, hid]
  rfl

/-- An entry of the other side has the public key of the selected contact. -/
theorem Traced.from_eq (h : Traced keys written posted user self)
    (hactive : self.activeContact = some contact) (he : e ∈ self.chatWindow)
    (hthem : e.sender = .them) : ∃ p ∈ posted, p.1 = (keys user).publicKey ∧
      e = p.2.toPoll.shown ∧ p.2.from = contact.publicKey := by
  rw [ChatClient.chatWindow_eq hactive] at he
  obtain ⟨p, hp, hto, heq, hid⟩ := h.theirs contact.id e he hthem
  refine ⟨p, hp, hto, heq, WebClient.eq_of_mem_identities h.ids hid ?_⟩
  exact WebClient.mem_identities.mpr
    ⟨contact, (ChatClient.mem_of_activeContact hactive).1, rfl, rfl⟩

/-- The chat window decrypts with the key of the selected contact. -/
theorem Traced.decryptMessage (h : Traced keys written posted user self)
    (hactive : self.activeContact = some contact) (he : e ∈ self.chatWindow) :
    self.decryptMessage c fromUtf8Lossy e = (jsValue (WebClient.decrypt c fromUtf8Lossy
      (keys user).privateKey contact.publicKey e.ciphertext e.nonce)).getD
        "[Could not decrypt message]" := by
  rw [← h.sameKeys]
  refine ChatClient.decryptMessage_eq hactive h.ids fun publicKey hfrom => ?_
  cases hsender : e.sender with
  | them =>
    obtain ⟨p, -, -, heq, hpublicKey⟩ := h.from_eq hactive he hsender
    rw [heq] at hfrom
    cases hfrom
    exact hpublicKey
  | me =>
    rw [ChatClient.chatWindow_eq hactive] at he
    rw [(h.mine contact.id e he hsender).1] at hfrom
    cases hfrom

end Window

namespace Chat

variable {User : Type} {c : Crates} {publicKeyOf : c.SecretKey → c.PublicKey}
  {fromUtf8Lossy : List UInt8 → String} {codecs : Codecs} {keys : User → Keypair}
  {chat : Chat User} {user : User}

/-- The entry has the content that was written, and shows its text. -/
def Shows (c : Crates) (fromUtf8Lossy : List UInt8 → String) (chat : Chat User) (user : User)
    (e : ShownMessage) (w : Written User) : Prop :=
  w.payload.ciphertext = e.ciphertext ∧ w.payload.nonce = e.nonce ∧
    (chat.client user).decryptMessage c fromUtf8Lossy e = w.text

/-- Every message in the chat window with another user shows what this user has written to the user,
and every own message what was written to the selected contact, unless another contact was selected
when it was written. -/
def WindowFaithful (c : Crates) (fromUtf8Lossy : List UInt8 → String) (keys : User → Keypair)
    (chat : Chat User) (user : User) : Prop :=
  ∀ contact, (chat.client user).activeContact = some contact →
    ∀ e ∈ (chat.client user).chatWindow,
      (e.sender = .them → (∃ other, (keys other).publicKey = contact.publicKey) →
        ∃ w ∈ chat.written, (keys w.writer).publicKey = contact.publicKey ∧
          w.payload.to = (keys user).publicKey ∧ chat.Shows c fromUtf8Lossy user e w) ∧
      (e.sender = .me → ∃ w ∈ chat.written, w.writer = user ∧
        w.payload.ciphertext = e.ciphertext ∧ w.payload.nonce = e.nonce ∧
          (w.contactId = contact.id → w.payload.to = contact.publicKey ∧
            chat.Shows c fromUtf8Lossy user e w))

/-- What the users write is posted, and what others post is not in the name of a user. -/
def Genuine (keys : User → Keypair) (written : List (Written User)) (payload : MessagePayload) :
    Prop :=
  (∃ w ∈ written, w.payload = payload) ∨ ∀ user, payload.from ≠ (keys user).publicKey

/-- More that is written leaves a genuine message genuine. -/
theorem Genuine.mono (written more : List (Written User)) (payload : MessagePayload)
    (h : Genuine keys written payload) : Genuine keys (written ++ more) payload := by
  refine h.imp_left fun hposted => ?_
  obtain ⟨w, hw, heq⟩ := hposted
  exact ⟨w, List.mem_append_left _ hw, heq⟩

/-- An entry that was encrypted with the secret of the conversation shows its text. -/
theorem Sound.shows {posts : List (Written User) → MessagePayload → Prop}
    (h : Sound c codecs keys posts chat) (hagrees : c.Agrees publicKeyOf)
    (hutf8 : ∀ s, fromUtf8Lossy (asBytes s) = s) {contact : Contact} {e : ShownMessage}
    {w : Written User} (hactive : (chat.client user).activeContact = some contact)
    (he : e ∈ (chat.client user).chatWindow) (hw : w ∈ chat.written)
    (hciphertext : w.payload.ciphertext = e.ciphertext) (hnonce : w.payload.nonce = e.nonce)
    (hsecret : Keys.deriveSharedSecret c (keys w.writer).privateKey w.payload.to =
      Keys.deriveSharedSecret c (keys user).privateKey contact.publicKey) :
    chat.Shows c fromUtf8Lossy user e w := by
  refine ⟨hciphertext, hnonce, ?_⟩
  rw [(h.clients user).decryptMessage hactive he]
  obtain ⟨-, nonceBytes, hencrypt⟩ := h.written w hw
  rw [hciphertext, hnonce] at hencrypt
  rw [jsValue_eq_some.mpr (decrypt_of_encrypt hagrees hutf8 hsecret hencrypt)]
  rfl

/-- A sound chat with genuine messages shows what was written. -/
theorem Sound.windowFaithful (h : Sound c codecs keys (Genuine keys) chat)
    (hagrees : c.Agrees publicKeyOf) (hutf8 : ∀ s, fromUtf8Lossy (asBytes s) = s)
    (hgenerated : ∀ user, (keys user).Generated c publicKeyOf) (user : User) :
    chat.WindowFaithful c fromUtf8Lossy keys user := by
  intro contact hactive e he
  constructor
  · intro hthem hother
    obtain ⟨other, hother⟩ := hother
    obtain ⟨p, hp, hto, rfl, hfrom⟩ := (h.clients user).from_eq hactive he hthem
    rcases h.posted p hp with ⟨w, hw, hpayload⟩ | houtsider
    · have hwriter : (keys w.writer).publicKey = contact.publicKey := by
        rw [← (h.written w hw).1, hpayload]
        exact hfrom
      have hrecipient : w.payload.to = (keys user).publicKey := by
        rw [hpayload]
        exact hto
      refine ⟨w, hw, hwriter, hrecipient,
        h.shows hagrees hutf8 hactive he hw (by rw [hpayload]; rfl) (by rw [hpayload]; rfl) ?_⟩
      rw [hrecipient, ← hwriter]
      exact Keypair.Generated.sharedSecret_comm hagrees (hgenerated w.writer) (hgenerated user)
    · exact absurd (hfrom.trans hother.symm) (houtsider other)
  · intro hme
    have hmem : e ∈ (chat.client user).conversation contact.id :=
      ChatClient.chatWindow_eq hactive ▸ he
    obtain ⟨-, w, hw, hwriter, hciphertext, hnonce⟩ := (h.clients user).mine _ e hmem hme
    refine ⟨w, hw, hwriter, hciphertext, hnonce, fun hcontact => ?_⟩
    have hto : w.payload.to = contact.publicKey := by
      have haddressed := (h.clients user).addressed w hw hwriter
      rw [hcontact] at haddressed
      exact WebClient.eq_of_mem_identities (h.clients user).ids haddressed
        (WebClient.mem_identities.mpr
          ⟨contact, (ChatClient.mem_of_activeContact hactive).1, rfl, rfl⟩)
    refine ⟨hto, h.shows hagrees hutf8 hactive he hw hciphertext hnonce ?_⟩
    rw [hwriter, hto]

/-! ### Messages in a false name -/

/-- The secret that the writer shares with the recipient is the one that the user shares with the
owner of the public key. -/
def SharesSecret (c : Crates) (keys : User → Keypair) (user : User) (publicKey : String)
    (w : Written User) : Prop :=
  ∃ secret, Yields (Keys.deriveSharedSecret c (keys w.writer).privateKey w.payload.to) secret ∧
    Yields (Keys.deriveSharedSecret c (keys user).privateKey publicKey) secret

/-- Every message in the chat window with another user shows the error text or what was written with
the secret that the two share. -/
def WindowAuthentic (c : Crates) (fromUtf8Lossy : List UInt8 → String) (keys : User → Keypair)
    (chat : Chat User) (user : User) : Prop :=
  ∀ contact, (chat.client user).activeContact = some contact →
    (∃ other, (keys other).publicKey = contact.publicKey) →
      ∀ e ∈ (chat.client user).chatWindow,
        (chat.client user).decryptMessage c fromUtf8Lossy e = "[Could not decrypt message]" ∨
          ∃ w ∈ chat.written, chat.Shows c fromUtf8Lossy user e w ∧
            SharesSecret c keys user contact.publicKey w

/-- The ciphertexts that have been posted or written, with their nonces. -/
def inPlay (chat : Chat User) : List (List UInt8 × List UInt8) :=
  chat.server.posted.map (fun p => (p.2.ciphertext, p.2.nonce)) ++
    chat.written.map fun w => (w.payload.ciphertext, w.payload.nonce)

/-- What decrypts with the secret that two users share was encrypted with it by a user. -/
def Unforged (c : Crates) (fromUtf8Lossy : List UInt8 → String) (keys : User → Keypair)
    (chat : Chat User) : Prop :=
  ∀ m ∈ chat.inPlay, ∀ user other text,
    Yields (WebClient.decrypt c fromUtf8Lossy (keys user).privateKey (keys other).publicKey m.1 m.2)
      text →
        ∃ w ∈ chat.written, (w.payload.ciphertext, w.payload.nonce) = m ∧
          SharesSecret c keys user (keys other).publicKey w

variable {posts : List (Written User) → MessagePayload → Prop}

/-- What is in the chat window has been posted or written. -/
theorem Sound.mem_inPlay (h : Sound c codecs keys posts chat) {contact : Contact} {e : ShownMessage}
    (hactive : (chat.client user).activeContact = some contact)
    (he : e ∈ (chat.client user).chatWindow) : (e.ciphertext, e.nonce) ∈ chat.inPlay := by
  cases hsender : e.sender with
  | me =>
    obtain ⟨-, w, hw, -, hciphertext, hnonce⟩ := (h.clients user).mine contact.id e
      (ChatClient.chatWindow_eq hactive ▸ he) hsender
    exact List.mem_append_right _ (List.mem_map.mpr ⟨w, hw, by rw [hciphertext, hnonce]⟩)
  | them =>
    obtain ⟨p, hp, -, rfl, -⟩ := (h.clients user).from_eq hactive he hsender
    exact List.mem_append_left _ (List.mem_map.mpr ⟨p, hp, rfl⟩)

/-- A sound chat in which nothing is forged shows what the two users wrote. -/
theorem Sound.windowAuthentic (h : Sound c codecs keys posts chat)
    (hagrees : c.Agrees publicKeyOf) (hutf8 : ∀ s, fromUtf8Lossy (asBytes s) = s)
    (hunforged : chat.Unforged c fromUtf8Lossy keys) (user : User) :
    chat.WindowAuthentic c fromUtf8Lossy keys user := by
  intro contact hactive hother e he
  obtain ⟨other, hother⟩ := hother
  cases hvalue : jsValue (WebClient.decrypt c fromUtf8Lossy (keys user).privateKey
      contact.publicKey e.ciphertext e.nonce) with
  | none =>
    left
    rw [(h.clients user).decryptMessage hactive he, hvalue]
    rfl
  | some text =>
    right
    have hdecrypt := jsValue_eq_some.mp hvalue
    rw [← hother] at hdecrypt
    obtain ⟨w, hw, hcontent, hsecret⟩ :=
      hunforged _ (h.mem_inPlay hactive he) user other text hdecrypt
    obtain ⟨hciphertext, hnonce⟩ := Prod.mk.inj hcontent
    rw [hother] at hsecret
    obtain ⟨secret, hwritten, hshared⟩ := id hsecret
    -- The text is the one that was written, since the secret is the one that encrypted it.
    refine ⟨w, hw, h.shows hagrees hutf8 hactive he hw hciphertext hnonce ?_, hsecret⟩
    unfold Yields at hwritten hshared
    exact hwritten.trans hshared.symm

/-- What has been written stays written. -/
theorem subset_written_run [DecidableEq User] (events : List (ChatEvent User)) :
    ∀ chat : Chat User, chat.written ⊆ (chat.run c fromUtf8Lossy codecs events).written := by
  induction events with
  | nil => exact fun _ => List.Subset.refl _
  | cons event events ih =>
    intro chat
    refine List.Subset.trans ?_ (ih (chat.step c fromUtf8Lossy codecs event))
    cases event with
    | act user action => exact List.subset_append_left _ _
    | post payload seconds => exact List.Subset.refl _

end Chat

/-! ### Two users -/

/-- The private key of a user: the first one has the key 1, the second one has the key 2. -/
def privateBytesOf (user : Bool) : List UInt8 :=
  List.replicate 31 0 ++ [if user then 2 else 1]

/-- The public key of a user, in uncompressed SEC1 bytes: the base point of P-256, or its double. -/
def publicBytesOf : Bool → List UInt8
  | false =>
    [0x04, 0x6b, 0x17, 0xd1, 0xf2, 0xe1, 0x2c, 0x42, 0x47, 0xf8, 0xbc, 0xe6, 0xe5, 0x63, 0xa4, 0x40,
      0xf2, 0x77, 0x03, 0x7d, 0x81, 0x2d, 0xeb, 0x33, 0xa0, 0xf4, 0xa1, 0x39, 0x45, 0xd8, 0x98,
      0xc2, 0x96, 0x4f, 0xe3, 0x42, 0xe2, 0xfe, 0x1a, 0x7f, 0x9b, 0x8e, 0xe7, 0xeb, 0x4a, 0x7c,
      0x0f, 0x9e, 0x16, 0x2b, 0xce, 0x33, 0x57, 0x6b, 0x31, 0x5e, 0xce, 0xcb, 0xb6, 0x40, 0x68,
      0x37, 0xbf, 0x51, 0xf5]
  | true =>
    [0x04, 0x7c, 0xf2, 0x7b, 0x18, 0x8d, 0x03, 0x4f, 0x7e, 0x8a, 0x52, 0x38, 0x03, 0x04, 0xb5, 0x1a,
      0xc3, 0xc0, 0x89, 0x69, 0xe2, 0x77, 0xf2, 0x1b, 0x35, 0xa6, 0x0b, 0x48, 0xfc, 0x47, 0x66,
      0x99, 0x78, 0x07, 0x77, 0x55, 0x10, 0xdb, 0x8e, 0xd0, 0x40, 0x29, 0x3d, 0x9a, 0xc6, 0x9f,
      0x74, 0x30, 0xdb, 0xba, 0x7d, 0xad, 0xe6, 0x3c, 0xe9, 0x82, 0x29, 0x9e, 0x04, 0xb7, 0x9d,
      0x22, 0x78, 0x73, 0xd1]

/-- The `x` coordinates of the base point, its double and its fourfold. -/
def sharedPoint : Bool → Bool → List UInt8
  | false, false => ((publicBytesOf false).drop 1).take 32
  | true, true =>
    [0xe2, 0x53, 0x4a, 0x35, 0x32, 0xd0, 0x8f, 0xbb, 0xa0, 0x2d, 0xde, 0x65, 0x9e, 0xe6, 0x2b, 0xd0,
      0x03, 0x1f, 0xe2, 0xdb, 0x78, 0x55, 0x96, 0xef, 0x50, 0x93, 0x02, 0x44, 0x6b, 0x03, 0x08,
      0x52]
  | _, _ => ((publicBytesOf true).drop 1).take 32

/-- What HKDF expands the secret of the two users to. -/
def sharedKey : List UInt8 :=
  [0x32, 0xc1, 0x4f, 0x38, 0xe4, 0x11, 0xdc, 0x17, 0xe4, 0x95, 0xb9, 0xb3, 0xf9, 0x3d, 0x55, 0xd0,
    0x42, 0x51, 0xca, 0x23, 0xc6, 0x09, 0x0b, 0x90, 0xc2, 0xb3, 0x80, 0x6c, 0xd5, 0xc1, 0x00, 0xc2]

/-- What HKDF expands the secrets to that a user shares with itself. -/
def ownKey : Bool → List UInt8
  | false =>
    [0x18, 0xa6, 0x89, 0xd0, 0xf1, 0x4c, 0xbf, 0x95, 0x1c, 0xc5, 0x55, 0x67, 0x91, 0x78, 0xa3, 0x67,
      0x7a, 0xe3, 0xf1, 0x4e, 0xd1, 0x63, 0x28, 0x53, 0x7c, 0xa5, 0xa3, 0xe6, 0x36, 0xe9, 0x75,
      0x17]
  | true =>
    [0x29, 0xab, 0x03, 0x76, 0x53, 0x16, 0xe9, 0x25, 0x05, 0xf2, 0x70, 0x95, 0xbd, 0xfb, 0x7e, 0x7b,
      0x9e, 0xcf, 0x45, 0x11, 0x81, 0xc0, 0x88, 0x5c, 0x9e, 0x1d, 0xc3, 0x66, 0xf0, 0xef, 0xc8,
      0x78]

/-- The nonce that the first user draws. -/
def sevens : Vector UInt8 12 := Vector.replicate 12 7

/-- What AES-256-GCM makes of "hi" with the key of the two users and this nonce: two bytes and the
tag. -/
def greetingCiphertext : List UInt8 :=
  [0x7e, 0xad, 0x7d, 0x91, 0xfd, 0x48, 0x6a, 0x80, 0xd3, 0x29, 0x1d, 0xf9, 0x0e, 0x2f, 0xcd, 0xfd,
    0x88, 0x77]

/-- The crates as far as the two users use them, who sign nothing. A key is that of the first or of
the second user. -/
def pairCrates : Crates where
  SecretKey := Bool
  PublicKey := Bool
  SigningKey := Unit
  VerifyingKey := Unit
  Signature := Unit
  hexError _ := "Odd number of digits"
  secretKeyFromSlice bytes :=
    if bytes = privateBytesOf false then .ok false
    else if bytes = privateBytesOf true then .ok true
    else .error "crypto error"
  publicKeyFromSec1Bytes bytes :=
    if bytes = publicBytesOf false then .ok false
    else if bytes = publicBytesOf true then .ok true
    else .error "crypto error"
  signingKeyFromSlice _ := .error "signature error"
  verifyingKeyFromSec1Bytes _ := .error "signature error"
  signatureFromSlice _ := .error "signature error"
  diffieHellman := sharedPoint
  hkdfExpand secret _ _ :=
    if secret = sharedPoint false true then .ok (Vector.ofFn fun i => sharedKey.getD i 0)
    else if secret = sharedPoint false false then .ok (Vector.ofFn fun i => (ownKey false).getD i 0)
    else if secret = sharedPoint true true then .ok (Vector.ofFn fun i => (ownKey true).getD i 0)
    else .error "invalid number of blocks, too large output"
  aesEncrypt key nonce plaintext :=
    if key.toList = sharedKey ∧ nonce = sevens ∧ plaintext = asBytes "hi" then
      .ok greetingCiphertext
    else .error "aead::Error"
  aesDecrypt key nonce ciphertext :=
    if key.toList = sharedKey ∧ nonce = sevens ∧ ciphertext = greetingCiphertext then
      .ok (asBytes "hi")
    else .error "aead::Error"
  trySign _ _ := .error "signature error"
  signatureToVec _ := []
  verifySignature _ _ _ := false

/-- The tables keep what the crates promise. -/
theorem pairCrates_agrees : pairCrates.Agrees id := by
  refine ⟨fun a b => ?_, fun key nonce plaintext ciphertext hencrypt => ?_⟩
  · cases a <;> cases b <;> rfl
  · unfold pairCrates at hencrypt ⊢
    dsimp only at hencrypt ⊢
    split at hencrypt
    · rename_i hgreeting
      cases hencrypt
      obtain ⟨hkey, hnonce, rfl⟩ := hgreeting
      exact if_pos ⟨hkey, hnonce, rfl⟩
    · cases hencrypt

/-- `String::from_utf8_lossy`, with nothing for bytes that are not UTF-8. -/
def fromUtf8 (bytes : List UInt8) : String :=
  if h : (ByteArray.mk bytes.toArray).IsValidUTF8 then String.fromUTF8 _ h else ""

/-- A string is read back from its bytes. -/
theorem fromUtf8_asBytes (s : String) : fromUtf8 (asBytes s) = s := by
  unfold fromUtf8 asBytes
  have hdata : ByteArray.mk s.toUTF8.data.toList.toArray = s.toUTF8 := by simp
  have hvalid : s.toUTF8.IsValidUTF8 := s.isValidUTF8
  rw [dif_pos (hdata ▸ hvalid)]
  cases s
  rfl

/-- The keys of the two users. -/
def userKeys (user : Bool) : Keypair := generateKeypair (privateBytesOf user) (publicBytesOf user)

/-- Both key pairs are such as `generate_keypair` makes. -/
theorem userKeys_generated (user : Bool) : (userKeys user).Generated pairCrates id := by
  refine ⟨privateBytesOf user, publicBytesOf user, user, rfl, ?_, ?_, ?_, ?_⟩
  · cases user <;> decide
  · cases user <;> decide
  · cases user <;> rfl
  · cases user <;> rfl

/-- SHA-1 of the digits of the public keys. -/
def digestOf : Bool → List UInt8
  | false =>
    [0x5c, 0x70, 0xb3, 0xcd, 0x93, 0xa5, 0x09, 0x5e, 0x9b, 0xf3, 0xd9, 0xd2, 0xb1, 0x0a, 0xff, 0x5f,
      0xe2, 0xc9, 0x5b, 0x27]
  | true =>
    [0x73, 0xbe, 0xbb, 0x82, 0x27, 0xd2, 0xea, 0x0b, 0x3a, 0x1f, 0xb2, 0x29, 0x0d, 0x17, 0x88, 0x84,
      0x24, 0xd0, 0xe1, 0xe8]

/-- The codecs as far as they are used by messages between the two users: SHA-1 of the digits of
their public keys, of which the third one tells them apart, and `bincode` for what the server
stores. -/
def userCodecs : Codecs where
  sha1 bytes := Vector.ofFn fun i => (digestOf (bytes.getD 2 0 != 0x36)).getD i 0
  serialize := encodeStored
  deserialize _ := none
  verify _ _ _ := false
  messagePayload _ := none
  pollPayload _ := none
  messagesJson _ := ""
  metricsJson _ := none

/-- The payload that the user `false` posts. -/
def greeting : MessagePayload where
  «to» := (userKeys true).publicKey
  «from» := (userKeys false).publicKey
  ciphertext := greetingCiphertext
  nonce := sevens.toList

/-- Something in the name of the first user that the second one cannot decrypt. -/
def forgery : MessagePayload := { greeting with ciphertext := [0] }

/-- The payload as the user `true` polls it. -/
def received (payload : MessagePayload) (timestamp : ℕ) : PollMessage :=
  ⟨payload.from, payload.ciphertext, payload.nonce, timestamp⟩

/-- The first user adds the second one and writes to it. -/
def greetingEvents : List (ChatEvent Bool) :=
  [.act false (.typeContact ⟨"Bob", (userKeys true).publicKey⟩),
    .act false (.addContact 0),
    .act false (.selectContact "contact_0"),
    .act false (.typeMessage "hi"),
    .act false (.sendMessage sevens),
    .post greeting 5,
    .act false (.messageSent greeting 5000)]

/-- What has been written before the message comes to the server, and what waits for its request. -/
theorem greeting_written :
    ((Chat.start userKeys).run pairCrates fromUtf8 userCodecs (greetingEvents.take 5)).written.map
        (fun w => (w.writer, w.payload)) = [(false, greeting)] ∧
      (((Chat.start userKeys).run pairCrates fromUtf8 userCodecs
        (greetingEvents.take 5)).client false).sending = [greeting] := by
  decide +kernel

/-- The greeting has been written. -/
theorem exists_greeting_written : ∃ w ∈ ((Chat.start userKeys).run pairCrates fromUtf8 userCodecs
    (greetingEvents.take 5)).written, w.writer = false ∧ w.payload = greeting := by
  have hmem : (false, greeting) ∈ ((Chat.start userKeys).run pairCrates fromUtf8 userCodecs
      (greetingEvents.take 5)).written.map fun w => (w.writer, w.payload) := by
    rw [greeting_written.1]
    exact List.mem_singleton_self _
  obtain ⟨w, hw, heq⟩ := List.mem_map.mp hmem
  exact ⟨w, hw, Prod.mk.inj heq⟩

/-- The greeting waits for its request. -/
theorem greeting_sending : greeting ∈ (((Chat.start userKeys).run pairCrates fromUtf8 userCodecs
    (greetingEvents.take 5)).client false).sending := by
  rw [greeting_written.2]
  exact List.mem_singleton_self greeting

/-- The greeting that comes to the server is the one that was written. -/
theorem greeting_genuine : Chat.Genuine userKeys ((Chat.start userKeys).run pairCrates fromUtf8
    userCodecs (greetingEvents.take 5)).written greeting := by
  obtain ⟨w, hw, -, hpayload⟩ := exists_greeting_written
  exact Or.inl ⟨w, hw, hpayload⟩

/-- No other string than the key of the second user has the hash of a key of the two. -/
theorem greeting_recipient (user : Bool)
    (h : generateKey userCodecs.sha1 greeting.to = generateKey userCodecs.sha1
      (userKeys user).publicKey) : greeting.to = (userKeys user).publicKey := by
  cases user with
  | false => exact absurd h (by decide +kernel)
  | true => rfl

/-- The second one polls these messages and looks at them. -/
def pollEvents (response : List PollMessage) : List (ChatEvent Bool) :=
  [.act true .startPoll,
    .act true (.pollAnswered longerContactId response),
    .act true (.selectContact (longerContactId []))]

open Chat

/-! ### All runs -/

/-- In every run in which nobody else posts in the name of a user, the chat windows of all users are
faithful. -/
theorem chat_window_faithful {User : Type} [DecidableEq User] (c : Crates)
    (publicKeyOf : c.SecretKey → c.PublicKey) (fromUtf8Lossy : List UInt8 → String)
    (codecs : Codecs) (keys : User → Keypair) (hagrees : c.Agrees publicKeyOf)
    (hutf8 : ∀ s, fromUtf8Lossy (asBytes s) = s)
    (hgenerated : ∀ user, (keys user).Generated c publicKeyOf) (events : List (ChatEvent User))
    (hevents : (start keys).AllPossible c fromUtf8Lossy codecs keys (Genuine keys) events)
    (user : User) :
    ((start keys).run c fromUtf8Lossy codecs events).WindowFaithful c fromUtf8Lossy keys user :=
  (sound_start.run hgenerated Genuine.mono events hevents).windowFaithful hagrees hutf8
    hgenerated user

/-- `chat_window_faithful` for a message between the two users. -/
theorem chat_window_faithful_greeting :
    ((start userKeys).run pairCrates fromUtf8 userCodecs
        (greetingEvents ++ pollEvents [received greeting 5])).WindowFaithful pairCrates fromUtf8
          userKeys true ∧
      ((((start userKeys).run pairCrates fromUtf8 userCodecs
        (greetingEvents ++ pollEvents [received greeting 5])).client true).chatWindow.map
          fun e => (e.sender, e.timestamp)) = [(.them, 5000)] := by
  refine ⟨chat_window_faithful pairCrates id fromUtf8 userCodecs userKeys pairCrates_agrees
    fromUtf8_asBytes userKeys_generated _ ?_ true, by decide +kernel⟩
  refine ⟨trivial, fun contact hcontact => ?_, trivial, trivial, trivial,
    ⟨greeting_genuine, greeting_recipient⟩, greeting_sending, trivial,
    ⟨?_, longerContactId_fresh, ?_⟩, trivial, trivial⟩
  · cases hcontact
  all_goals decide +kernel

/-- In every run after which nothing is in play that was forged, the chat windows of all users are
authentic. -/
theorem chat_window_authentic {User : Type} [DecidableEq User] (c : Crates)
    (publicKeyOf : c.SecretKey → c.PublicKey) (fromUtf8Lossy : List UInt8 → String)
    (codecs : Codecs) (keys : User → Keypair) (hagrees : c.Agrees publicKeyOf)
    (hutf8 : ∀ s, fromUtf8Lossy (asBytes s) = s)
    (hgenerated : ∀ user, (keys user).Generated c publicKeyOf) (events : List (ChatEvent User))
    (hevents : (start keys).AllPossible c fromUtf8Lossy codecs keys (fun _ _ => True) events)
    (hunforged : ((start keys).run c fromUtf8Lossy codecs events).Unforged c fromUtf8Lossy keys)
    (user : User) :
    ((start keys).run c fromUtf8Lossy codecs events).WindowAuthentic c fromUtf8Lossy keys user :=
  (sound_start.run hgenerated (fun _ _ _ _ => trivial) events hevents).windowAuthentic hagrees hutf8
    hunforged user

/-- The run with that message, a forged one, and the message posted a second time. -/
def forgeryEvents : List (ChatEvent Bool) :=
  greetingEvents ++ [.post forgery 6, .post greeting 7] ++
    pollEvents [received greeting 5, received forgery 6, received greeting 7]

/-- The key that two users share. -/
def keyOf (user other : Bool) : Vector UInt8 32 :=
  Vector.ofFn fun i => (if user = other then ownKey user else sharedKey).getD i 0

/-- Two of the key pairs have one secret. -/
theorem yields_userKeys {user other : Bool} {key : Vector UInt8 32} :
    Yields (Keys.deriveSharedSecret pairCrates (userKeys user).privateKey
      (userKeys other).publicKey) key ↔ key = keyOf user other := by
  have hsecret : pairCrates.secretKeyFromSlice (privateBytesOf user) = .ok user := by
    cases user <;> rfl
  have hpublic : pairCrates.publicKeyFromSec1Bytes (publicBytesOf other) = .ok other := by
    cases other <;> rfl
  have hkey : pairCrates.hkdfExpand (sharedPoint user other) [] 32 = .ok (keyOf user other) := by
    cases user <;> cases other <;> rfl
  show Yields (Keys.deriveSharedSecret pairCrates (hexEncode (privateBytesOf user))
    (hexEncode (publicBytesOf other))) key ↔ _
  rw [deriveSharedSecret_hexEncode hsecret hpublic, yields_liftExcept]
  show pairCrates.hkdfExpand (sharedPoint user other) [] 32 = .ok key ↔ _
  rw [hkey, Except.ok.injEq, eq_comm]

/-- Only the first message decrypts, and only with the secret of the two. -/
theorem eq_of_userKeys_decrypt {user other : Bool} {m : List UInt8 × List UInt8} {text : String}
    (h : Yields (WebClient.decrypt pairCrates fromUtf8 (userKeys user).privateKey
      (userKeys other).publicKey m.1 m.2) text) :
    m = (greetingCiphertext, sevens.toList) ∧ other = !user := by
  obtain ⟨key, hkey, nonceBytes, hslice, plaintext, hplain, -⟩ := yields_decrypt.mp h
  obtain rfl := yields_userKeys.mp hkey
  unfold pairCrates at hplain
  dsimp only at hplain
  split at hplain
  · rename_i hgreeting
    obtain ⟨hshared, rfl, hciphertext⟩ := hgreeting
    refine ⟨Prod.ext hciphertext ?_, ?_⟩
    · unfold fromSlice at hslice
      split at hslice
      · rw [← Option.some.inj hslice]
        rfl
      · cases hslice
    · -- The keys that the users share with themselves are others.
      revert hshared
      cases user <;> cases other <;> decide
  · cases hplain

/-- Nothing decrypts that was not encrypted. -/
theorem forgery_unforged : ((start userKeys).run pairCrates fromUtf8 userCodecs
    forgeryEvents).Unforged pairCrates fromUtf8 userKeys := by
  obtain ⟨w, hw, hwriter, hpayload⟩ := exists_greeting_written
  have hsplit : greetingEvents.take 5 ++ forgeryEvents.drop 5 = forgeryEvents := rfl
  have hrun : (start userKeys).run pairCrates fromUtf8 userCodecs
      (greetingEvents.take 5 ++ forgeryEvents.drop 5) = _ := List.foldl_append
  rw [hsplit] at hrun
  intro m _ user other text hdecrypt
  obtain ⟨rfl, rfl⟩ := eq_of_userKeys_decrypt hdecrypt
  refine ⟨w, ?_, by rw [hpayload]; rfl, keyOf false true, ?_, ?_⟩
  · rw [hrun]
    exact subset_written_run _ _ hw
  · rw [hwriter, hpayload]
    exact yields_userKeys.mpr rfl
  · refine yields_userKeys.mpr ?_
    cases user <;> rfl

/-- `chat_window_authentic` for that message, after a forged one and posted a second time. -/
theorem chat_window_authentic_forgery :
    ((start userKeys).run pairCrates fromUtf8 userCodecs forgeryEvents).WindowAuthentic pairCrates
        fromUtf8 userKeys true ∧
      ((((start userKeys).run pairCrates fromUtf8 userCodecs forgeryEvents).client
        true).chatWindow.map fun e => (e.sender, e.timestamp)) =
          [(.them, 5000), (.them, 6000), (.them, 7000)] := by
  refine ⟨chat_window_authentic pairCrates id fromUtf8 userCodecs userKeys pairCrates_agrees
    fromUtf8_asBytes userKeys_generated forgeryEvents ?_ forgery_unforged true, by decide +kernel⟩
  refine ⟨trivial, fun contact hcontact => ?_, trivial, trivial, trivial,
    ⟨trivial, greeting_recipient⟩, greeting_sending, ⟨trivial, greeting_recipient⟩,
    ⟨trivial, greeting_recipient⟩, trivial, ⟨?_, longerContactId_fresh, ?_⟩, trivial, trivial⟩
  · cases hcontact
  all_goals decide +kernel

end TaceChat
