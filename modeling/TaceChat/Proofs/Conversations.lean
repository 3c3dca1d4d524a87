import TaceChat.Library.Lists
import TaceChat.Proofs.EncryptedChat
import TaceChat.Proofs.MailService
import TaceChat.Proofs.ShownOnce

/-!
# What the chat window shows

A `Chat` has the web clients of any number of users and one mail server, which `service_refines`
justifies. The users act in any order, a request of `sendMessage` may reach the server never, once
or several times, and a poll may return any of the messages of a mailbox.

`Traced` is what holds of every client throughout. An entry of the other side has been posted to the
user by somebody who gave the public key of the contact, and an entry of the user has been encrypted
by `sendMessage`. Every contact that has been written to keeps its id and its public key.
-/

set_option autoImplicit false

namespace TaceChat

/-! ### The contacts and the conversations of a client -/

namespace WebClient

variable {self self' : WebClient} {msg : PollMessage} {k publicKey : String} {e : ShownMessage}
  {newContactId : List Contact → String} {decrypts : String → List UInt8 → List UInt8 → Bool}

/-- The ids of the contacts with their public keys. The names may change. -/
def identities (self : WebClient) : List (String × String) :=
  self.contacts.map fun contact => (contact.id, contact.publicKey)

/-- An id with the public key of its contact. -/
theorem mem_identities {id : String} : (id, publicKey) ∈ self.identities ↔
    ∃ contact ∈ self.contacts, contact.id = id ∧ contact.publicKey = publicKey := by
  simp [identities]

/-- An id has one public key. -/
theorem eq_of_mem_identities (hids : (self.contacts.map Contact.id).Nodup) {id publicKey' : String}
    (h : (id, publicKey) ∈ self.identities) (h' : (id, publicKey') ∈ self.identities) :
    publicKey = publicKey' := by
  obtain ⟨contact, hcontact, hid, rfl⟩ := mem_identities.mp h
  obtain ⟨contact', hcontact', hid', rfl⟩ := mem_identities.mp h'
  rw [List.inj_on_of_nodup_map hids hcontact hcontact' (hid.trans hid'.symm)]

/-- A contact that is added comes last. -/
theorem findOrAddContact_identities {contact : Contact}
    (h : self.findOrAddContact newContactId decrypts msg = some (contact, self')) :
    self.identities ⊆ self'.identities := by
  unfold findOrAddContact at h
  split at h
  · cases h
    exact List.Subset.refl _
  · split at h
    · cases h
      show self.identities ⊆ (self.contacts ++ [_]).map _
      rw [List.map_append]
      exact List.subset_append_left _ _
    · cases h

/-- A received message removes no contact. -/
theorem receiveMessage_identities :
    self.identities ⊆ (self.receiveMessage newContactId decrypts msg).1.identities := by
  unfold receiveMessage
  cases hfind : self.findOrAddContact newContactId decrypts msg with
  | none => exact List.Subset.refl _
  | some found =>
    have hsubset := findOrAddContact_identities hfind
    dsimp only
    split
    · exact hsubset
    · split
      · exact hsubset
      · exact hsubset

/-- What a response does to the contacts and to the conversations. -/
structure Receives (response : List PollMessage) (before after : WebClient) : Prop where
  identities : before.identities ⊆ after.identities
  ids : (before.contacts.map Contact.id).Nodup → (after.contacts.map Contact.id).Nodup
  entries : ∀ k, ∀ e ∈ after.conversation k, e ∈ before.conversation k ∨
    ∃ msg ∈ response, e = msg.shown ∧ (k, msg.from) ∈ after.identities

/-- One message is shown once, if at all, under the contact of its sender. -/
theorem receives_receiveMessage
    (hfresh : ∀ contacts, ∀ contact ∈ contacts, contact.id ≠ newContactId contacts) :
    Receives [msg] self (self.receiveMessage newContactId decrypts msg).1 := by
  obtain ⟨hgrows, hconv⟩ := receiveMessage_effect hfresh decrypts self msg
  refine ⟨receiveMessage_identities, hgrows.ids, fun k e he => ?_⟩
  rcases hconv with hsame | ⟨contact, hcontact, -, -, hconv⟩
  · exact Or.inl (hsame k ▸ he)
  · rw [hconv] at he
    split at he
    · rename_i hk
      rcases List.mem_append.mp he with hold | hnew
      · exact Or.inl hold
      · refine Or.inr ⟨msg, List.mem_singleton_self msg, List.mem_singleton.mp hnew, ?_⟩
        exact mem_identities.mpr ⟨contact, List.mem_of_find?_eq_some hcontact, hk.symm,
          publicKey_of_contactFor hcontact⟩
    · exact Or.inl he

/-- Two responses are read one after the other. -/
theorem Receives.trans {response response' : List PollMessage} {client : WebClient}
    (h : Receives response self self') (h' : Receives response' self' client) :
    Receives (response ++ response') self client := by
  refine ⟨List.Subset.trans h.identities h'.identities, fun hids => h'.ids (h.ids hids),
    fun k e he => ?_⟩
  rcases h'.entries k e he with hmid | ⟨msg, hmsg, heq, hid⟩
  · rcases h.entries k e hmid with hold | ⟨msg, hmsg, heq, hid⟩
    · exact Or.inl hold
    · exact Or.inr ⟨msg, List.mem_append_left _ hmsg, heq, h'.identities hid⟩
  · exact Or.inr ⟨msg, List.mem_append_right _ hmsg, heq, hid⟩

/-- A response that throws has been read in part. -/
theorem receives_receiveMessages
    (hfresh : ∀ contacts, ∀ contact ∈ contacts, contact.id ≠ newContactId contacts)
    (response : List PollMessage) (self : WebClient) :
    Receives response self (self.receiveMessages newContactId decrypts response) := by
  induction response generalizing self with
  | nil => exact ⟨List.Subset.refl _, fun hids => hids, fun _ _ he => Or.inl he⟩
  | cons msg rest ih =>
    have hfirst : Receives [msg] self (self.receiveMessage newContactId decrypts msg).1 :=
      receives_receiveMessage hfresh
    unfold receiveMessages
    dsimp only
    split
    · exact hfirst.trans (ih _)
    · refine ⟨hfirst.identities, hfirst.ids, fun k e he => ?_⟩
      refine (hfirst.entries k e he).imp_right fun hnew => ?_
      obtain ⟨m, hm, heq, hid⟩ := hnew
      exact ⟨m, List.mem_singleton.mp hm ▸ List.mem_cons_self, heq, hid⟩

end WebClient

namespace ChatClient

variable {c : Crates} {fromUtf8Lossy : List UInt8 → String} {self self' : ChatClient}

/-- The conversations are left alone, and the contacts keep their ids and public keys. -/
structure Keeps (before after : ChatClient) : Prop where
  keys : after.keys = before.keys
  identities : before.identities ⊆ after.identities
  ids : (before.contacts.map Contact.id).Nodup → (after.contacts.map Contact.id).Nodup
  conversation : ∀ k, after.conversation k = before.conversation k
  sending : after.sending ⊆ before.sending

/-- The contacts are as they were. -/
theorem keeps_of_toWebClient (hclient : self'.toWebClient = self.toWebClient)
    (hkeys : self'.keys = self.keys) (hsending : self'.sending ⊆ self.sending) :
    self.Keeps self' := by
  refine ⟨hkeys, ?_, ?_, fun k => ?_, hsending⟩
  · rw [hclient]
    exact List.Subset.refl _
  · rw [hclient]
    exact id
  · rw [hclient]

/-- A contact that is added by hand comes with a new id and without a conversation. -/
theorem keeps_addContact {now : ℕ}
    (hfresh : ∀ contact ∈ self.contacts, contact.id ≠ "contact_" ++ toString now) :
    self.Keeps (self.addContact now) := by
  unfold addContact TaceChat.addContact
  dsimp only
  split_ifs
  · refine ⟨rfl, ?_, fun hids => ?_, fun _ => rfl, List.Subset.refl _⟩
    · show _ ⊆ (self.contacts ++ [_]).map _
      rw [List.map_append]
      exact List.subset_append_left _ _
    · show ((self.contacts ++ [_]).map Contact.id).Nodup
      rw [List.map_append, List.map_singleton]
      refine hids.append (List.nodup_singleton _) ?_
      intro id hid hnew
      obtain ⟨contact, hcontact, rfl⟩ := List.mem_map.mp hid
      exact hfresh contact hcontact (List.mem_singleton.mp hnew)
  · exact keeps_of_toWebClient rfl rfl (List.Subset.refl _)

/-- A contact gets another name only. -/
theorem keeps_renameContact (contactId : String) (newName : Option String) :
    self.Keeps (self.renameContact contactId newName) := by
  unfold renameContact
  split
  · exact keeps_of_toWebClient rfl rfl (List.Subset.refl _)
  · split
    · exact keeps_of_toWebClient rfl rfl (List.Subset.refl _)
    · dsimp only
      refine ⟨rfl, ?_, fun hids => ?_, fun _ => rfl, List.Subset.refl _⟩
      · unfold WebClient.identities
        rw [List.map_modify_eq (by exact fun _ => rfl)]
        exact List.Subset.refl _
      · rw [List.map_modify_eq (by exact fun _ => rfl)]
        exact hids

/-- The page is loaded with the keys that it has. -/
theorem keeps_reload (hkeys : self.keys.privateKey ≠ "" ∧ self.keys.publicKey ≠ "")
    (generated : Keypair) : self.Keeps (self.reload generated) := by
  refine keeps_of_toWebClient rfl ?_ (List.nil_subset _)
  show self.initKeys generated = self.keys
  rw [initKeys, if_neg]
  rintro (hprivate | hpublic)
  · exact hkeys.1 hprivate
  · exact hkeys.2 hpublic

/-- What `sendMessage` posts is for the selected contact. -/
theorem outgoing_eq_some {nonceBytes : Vector UInt8 12} {payload : MessagePayload}
    (h : self.outgoing c nonceBytes = some payload) :
    ∃ contact, self.activeContact = some contact ∧ payload.to = contact.publicKey ∧
      payload.from = self.keys.publicKey ∧
        Yields (WebClient.encrypt c self.keys.privateKey contact.publicKey self.newMessage
          nonceBytes) (payload.ciphertext, payload.nonce) := by
  unfold outgoing at h
  split at h
  · cases h
  · simp only [Option.bind_eq_bind, Option.bind_eq_some_iff, jsValue_eq_some] at h
    obtain ⟨contact, hcontact, ⟨ciphertext, nonce⟩, hencrypt, hpayload⟩ := h
    cases hpayload
    exact ⟨contact, hcontact, rfl, rfl, hencrypt⟩

/-- The selected contact is one of the contacts. -/
theorem mem_of_activeContact {contact : Contact} (h : self.activeContact = some contact) :
    contact ∈ self.contacts ∧ self.activeContactId = some contact.id := by
  have hfound := List.find?_some h
  exact ⟨List.mem_of_find?_eq_some h, (of_decide_eq_true hfound).symm⟩

/-- A message of the conversation with the selected contact is decrypted with the key of this
contact. -/
theorem decryptMessage_eq {contact : Contact} {e : ShownMessage}
    (hactive : self.activeContact = some contact)
    (hids : (self.contacts.map Contact.id).Nodup)
    (hfrom : ∀ publicKey, e.from = some publicKey → publicKey = contact.publicKey) :
    self.decryptMessage c fromUtf8Lossy e = (jsValue (WebClient.decrypt c fromUtf8Lossy
      self.keys.privateKey contact.publicKey e.ciphertext e.nonce)).getD
        "[Could not decrypt message]" := by
  obtain ⟨hmem, hid⟩ := mem_of_activeContact hactive
  unfold decryptMessage
  dsimp only
  split
  · rename_i hnone
    have hnot := List.find?_eq_none.mp hnone contact hmem
    simp [hactive, hid] at hnot
  · rename_i found hfound
    have hkey : found.publicKey = contact.publicKey := by
      have hmatch := List.find?_some hfound
      simp only [hactive, hid, Option.isSome_some, Bool.true_and, Bool.or_eq_true,
        decide_eq_true_eq, Option.some.injEq] at hmatch
      rcases hmatch with hkey | hsame
      · exact hfrom _ hkey.symm
      · rw [List.inj_on_of_nodup_map hids (List.mem_of_find?_eq_some hfound) hmem hsame]
    rw [hkey]
    split <;> rename_i hvalue <;> rw [hvalue] <;> rfl

end ChatClient

/-! ### The chat -/

/-- A call of `sendMessage` that has come to its request: the contact that was selected, the text
that was entered and what is posted. -/
structure Written (User : Type) where
  writer : User
  contactId : String
  text : String
  payload : MessagePayload

/-- The clients, what they have written and the server. -/
structure Chat (User : Type) where
  client : User → ChatClient
  written : List (Written User)
  server : MailServer

/-- An action of a user, or a message that comes to the server. -/
inductive ChatEvent (User : Type)
  | act (user : User) (action : ClientAction)
  /-- A message comes to the server. -/
  | post (payload : MessagePayload) (seconds : ℕ)

namespace ChatClient

/-- A client that has never been used. -/
def new (keys : Keypair) : ChatClient where
  contacts := []
  messages _ := none
  keys
  activeContactId := none
  newMessage := ""
  newContact := ⟨"", ""⟩
  isPolling := false
  sending := []

/-- What an action writes: the payload of a call of `sendMessage` that comes to its request. -/
def writes {User : Type} (c : Crates) (user : User) (self : ChatClient) :
    ClientAction → List (Written User)
  | .sendMessage nonceBytes =>
    (self.outgoing c nonceBytes).toList.map fun payload =>
      ⟨user, self.activeContactId.getD "", self.newMessage, payload⟩
  | _ => []

/-- Whether an action can come next, when a poll may have certain messages. New contacts have new
ids. -/
def Possible (mail : PollMessage → Prop) (self : ChatClient) : ClientAction → Prop
  | .addContact now => ∀ contact ∈ self.contacts, contact.id ≠ "contact_" ++ toString now
  | .messageSent payload _ => payload ∈ self.sending
  | .sendFailed payload => payload ∈ self.sending
  | .pollAnswered newContactId response =>
    self.isPolling ∧ (∀ contacts, ∀ contact ∈ contacts, contact.id ≠ newContactId contacts) ∧
      ∀ msg ∈ response, mail msg
  | _ => True

end ChatClient

namespace Chat

variable {User : Type} [DecidableEq User] (c : Crates) (fromUtf8Lossy : List UInt8 → String)
  (codecs : Codecs) (keys : User → Keypair)

/-- Nothing has been written. -/
def start : Chat User := ⟨fun user => .new (keys user), [], .empty⟩

/-- The chat after an event. -/
def step (chat : Chat User) : ChatEvent User → Chat User
  | .act user action =>
    { chat with
      client := Function.update chat.client user
        ((chat.client user).act c fromUtf8Lossy action)
      written := chat.written ++ (chat.client user).writes c user action }
  | .post payload seconds =>
    { chat with server := (chat.server.post codecs seconds (.ok payload)).2 }

/-- The chat after the events, in their order. -/
def run (chat : Chat User) (events : List (ChatEvent User)) : Chat User :=
  events.foldl (step c fromUtf8Lossy codecs) chat

/-- What can come next. A poll returns some messages of the mailbox of the user. A message that
comes to the server is one that `posts` admits, and no other string than the public key of a user
has the hash of this key. -/
def Possible (posts : List (Written User) → MessagePayload → Prop) (chat : Chat User) :
    ChatEvent User → Prop
  | .act user action =>
    (chat.client user).Possible (fun msg => msg ∈ (chat.server.mailbox codecs
      (generateKey codecs.sha1 (keys user).publicKey)).map StoredMessage.toPoll) action
  | .post payload _ => posts chat.written payload ∧
    ∀ user, generateKey codecs.sha1 payload.to = generateKey codecs.sha1 (keys user).publicKey →
      payload.to = (keys user).publicKey

/-- Each of the events can come when it comes. -/
def AllPossible (posts : List (Written User) → MessagePayload → Prop) :
    Chat User → List (ChatEvent User) → Prop
  | _, [] => True
  | chat, event :: events =>
    chat.Possible codecs keys posts event ∧
      AllPossible posts (chat.step c fromUtf8Lossy codecs event) events

end Chat

/-! ### Where the messages come from -/

section Traced

variable {User : Type} {c : Crates} {fromUtf8Lossy : List UInt8 → String} {keys : User → Keypair}
  {written written' : List (Written User)} {posted posted' : List (String × StoredMessage)}
  {user : User} {self self' : ChatClient}

/-- What holds of the client of a user, when certain messages have been written and posted. -/
structure Traced (keys : User → Keypair) (written : List (Written User))
    (posted : List (String × StoredMessage)) (user : User) (client : ChatClient) : Prop where
  sameKeys : client.keys = keys user
  ids : (client.contacts.map Contact.id).Nodup
  theirs : ∀ k, ∀ e ∈ client.conversation k, e.sender = .them → ∃ p ∈ posted,
    p.1 = (keys user).publicKey ∧ e = p.2.toPoll.shown ∧ (k, p.2.from) ∈ client.identities
  mine : ∀ k, ∀ e ∈ client.conversation k, e.sender = .me → e.from = none ∧ ∃ w ∈ written,
    w.writer = user ∧ w.payload.ciphertext = e.ciphertext ∧ w.payload.nonce = e.nonce
  sending : ∀ payload ∈ client.sending, ∃ w ∈ written, w.writer = user ∧ w.payload = payload
  addressed : ∀ w ∈ written, w.writer = user → (w.contactId, w.payload.to) ∈ client.identities

/-- A client that has never been used shows nothing. -/
theorem traced_new : Traced keys [] posted user (.new (keys user)) := by
  refine ⟨rfl, List.nodup_nil, ?_, ?_, ?_, ?_⟩
  · intro k e he
    cases he
  · intro k e he
    cases he
  · intro payload hpayload
    cases hpayload
  · intro w hw
    cases hw

/-- What others write, and what is posted, does not matter. -/
theorem Traced.mono (h : Traced keys written posted user self) (hwritten : written ⊆ written')
    (hposted : posted ⊆ posted') (hothers : ∀ w ∈ written', w.writer = user → w ∈ written) :
    Traced keys written' posted' user self := by
  refine ⟨h.sameKeys, h.ids, fun k e he hthem => ?_, fun k e he hme => ?_,
    fun payload hpayload => ?_, fun w hw hwriter => h.addressed w (hothers w hw hwriter) hwriter⟩
  · obtain ⟨p, hp, hrest⟩ := h.theirs k e he hthem
    exact ⟨p, hposted hp, hrest⟩
  · obtain ⟨hfrom, w, hw, hrest⟩ := h.mine k e he hme
    exact ⟨hfrom, w, hwritten hw, hrest⟩
  · obtain ⟨w, hw, hrest⟩ := h.sending payload hpayload
    exact ⟨w, hwritten hw, hrest⟩

/-- An action that adds no entry writes nothing. -/
theorem Traced.keeps (h : Traced keys written posted user self) (hkeeps : self.Keeps self') :
    Traced keys (written ++ []) posted user self' := by
  rw [List.append_nil]
  refine ⟨hkeeps.keys.trans h.sameKeys, hkeeps.ids h.ids, fun k e he hthem => ?_,
    fun k e he hme => ?_, fun payload hpayload => h.sending payload (hkeeps.sending hpayload),
    fun w hw hwriter => hkeeps.identities (h.addressed w hw hwriter)⟩
  · obtain ⟨p, hp, hto, heq, hid⟩ := h.theirs k e (hkeeps.conversation k ▸ he) hthem
    exact ⟨p, hp, hto, heq, hkeeps.identities hid⟩
  · exact h.mine k e (hkeeps.conversation k ▸ he) hme

/-- The call of `sendMessage` is written down. -/
theorem Traced.sendMessage (h : Traced keys written posted user self)
    (nonceBytes : Vector UInt8 12) :
    Traced keys (written ++ self.writes c user (.sendMessage nonceBytes)) posted user
      (self.sendMessage c nonceBytes) := by
  refine ⟨h.sameKeys, h.ids, h.theirs, fun k e he hme => ?_, fun payload hpayload => ?_,
    fun w hw hwriter => ?_⟩
  · obtain ⟨hfrom, w, hw, hrest⟩ := h.mine k e he hme
    exact ⟨hfrom, w, List.mem_append_left _ hw, hrest⟩
  · rcases List.mem_append.mp hpayload with hold | hnew
    · obtain ⟨w, hw, hrest⟩ := h.sending payload hold
      exact ⟨w, List.mem_append_left _ hw, hrest⟩
    · exact ⟨_, List.mem_append_right _ (List.mem_map_of_mem hnew), rfl, rfl⟩
  · rcases List.mem_append.mp hw with hold | hnew
    · exact h.addressed w hold hwriter
    · obtain ⟨payload, hpayload, rfl⟩ := List.mem_map.mp hnew
      obtain ⟨contact, hcontact, hto, -⟩ :=
        ChatClient.outgoing_eq_some (Option.mem_toList.mp hpayload)
      obtain ⟨hmem, hid⟩ := ChatClient.mem_of_activeContact hcontact
      refine WebClient.mem_identities.mpr ⟨contact, hmem, ?_, hto.symm⟩
      rw [hid]
      rfl

/-- The sent message comes into the selected conversation. -/
theorem Traced.messageSent (h : Traced keys written posted user self) {payload : MessagePayload}
    (hpayload : payload ∈ self.sending) (now : ℕ) :
    Traced keys (written ++ []) posted user (self.messageSent payload now) := by
  rw [List.append_nil]
  have hconv : ∀ k, ∀ e ∈ (self.messageSent payload now).conversation k,
      e ∈ self.conversation k ∨ e.sender = .me ∧ e.from = none ∧
        e.ciphertext = payload.ciphertext ∧ e.nonce = payload.nonce := by
    intro k e he
    unfold ChatClient.messageSent at he
    dsimp only at he
    rw [WebClient.conversation_setConversation] at he
    split at he
    · rename_i hk
      rcases List.mem_append.mp he with hold | hnew
      · exact Or.inl (hk ▸ hold)
      · rw [List.mem_singleton.mp hnew]
        exact Or.inr ⟨rfl, rfl, rfl, rfl⟩
    · exact Or.inl he
  refine ⟨h.sameKeys, h.ids, fun k e he hthem => ?_, fun k e he hme => ?_,
    fun p hp => h.sending p (List.mem_of_mem_erase hp), h.addressed⟩
  · rcases hconv k e he with hold | ⟨hme, -⟩
    · exact h.theirs k e hold hthem
    · rw [hme] at hthem
      cases hthem
  · rcases hconv k e he with hold | ⟨-, hfrom, hciphertext, hnonce⟩
    · exact h.mine k e hold hme
    · obtain ⟨w, hw, hwriter, rfl⟩ := h.sending payload hpayload
      exact ⟨hfrom, w, hw, hwriter, hciphertext.symm, hnonce.symm⟩

/-- The messages of a poll have been posted to the user. -/
theorem Traced.pollAnswered (h : Traced keys written posted user self)
    {newContactId : List Contact → String} {response : List PollMessage}
    (hfresh : ∀ contacts, ∀ contact ∈ contacts, contact.id ≠ newContactId contacts)
    (hmail : ∀ msg ∈ response, ∃ p ∈ posted, p.1 = (keys user).publicKey ∧ p.2.toPoll = msg) :
    Traced keys (written ++ []) posted user
      (self.pollAnswered c fromUtf8Lossy newContactId response) := by
  rw [List.append_nil]
  have hreceives : WebClient.Receives response self.toWebClient
      (self.pollAnswered c fromUtf8Lossy newContactId response).toWebClient :=
    WebClient.receives_receiveMessages hfresh response self.toWebClient
  refine ⟨h.sameKeys, hreceives.ids h.ids, fun k e he hthem => ?_, fun k e he hme => ?_, h.sending,
    fun w hw hwriter => hreceives.identities (h.addressed w hw hwriter)⟩
  · rcases hreceives.entries k e he with hold | ⟨msg, hmsg, heq, hid⟩
    · obtain ⟨p, hp, hto, heq, hid⟩ := h.theirs k e hold hthem
      exact ⟨p, hp, hto, heq, hreceives.identities hid⟩
    · obtain ⟨p, hp, hto, rfl⟩ := hmail msg hmsg
      exact ⟨p, hp, hto, heq, hid⟩
  · rcases hreceives.entries k e he with hold | ⟨msg, -, rfl, -⟩
    · exact h.mine k e hold hme
    · cases hme

/-- Every action keeps it. -/
theorem Traced.act (h : Traced keys written posted user self) {mail : PollMessage → Prop}
    {action : ClientAction} (hpossible : self.Possible mail action)
    (hkeys : (keys user).privateKey ≠ "" ∧ (keys user).publicKey ≠ "")
    (hmail : ∀ msg, mail msg → ∃ p ∈ posted, p.1 = (keys user).publicKey ∧ p.2.toPoll = msg) :
    Traced keys (written ++ self.writes c user action) posted user
      (self.act c fromUtf8Lossy action) := by
  have hsubset : self.sending ⊆ self.sending := List.Subset.refl _
  cases action with
  | selectContact contactId => exact h.keeps (ChatClient.keeps_of_toWebClient rfl rfl hsubset)
  | typeMessage text => exact h.keeps (ChatClient.keeps_of_toWebClient rfl rfl hsubset)
  | typeContact newContact => exact h.keeps (ChatClient.keeps_of_toWebClient rfl rfl hsubset)
  | addContact now => exact h.keeps (ChatClient.keeps_addContact hpossible)
  | renameContact contactId newName => exact h.keeps (ChatClient.keeps_renameContact _ _)
  | reload generated => exact h.keeps (ChatClient.keeps_reload (h.sameKeys ▸ hkeys) generated)
  | sendMessage nonceBytes => exact h.sendMessage nonceBytes
  | messageSent payload now => exact h.messageSent hpossible now
  | sendFailed payload =>
    exact h.keeps (ChatClient.keeps_of_toWebClient rfl rfl List.erase_subset)
  | startPoll =>
    refine h.keeps ?_
    show self.Keeps self.startPoll
    unfold ChatClient.startPoll
    split
    · exact ChatClient.keeps_of_toWebClient rfl rfl hsubset
    · exact ChatClient.keeps_of_toWebClient rfl rfl hsubset
  | pollAnswered newContactId response =>
    exact h.pollAnswered hpossible.2.1 fun msg hmsg => hmail msg (hpossible.2.2 msg hmsg)
  | pollFailed => exact h.keeps (ChatClient.keeps_of_toWebClient rfl rfl hsubset)

end Traced

/-! ### Runs -/

/-- What has been written was encrypted for its recipient. -/
def Written.Encrypted {User : Type} (c : Crates) (keys : User → Keypair)
    (w : Written User) : Prop :=
  w.payload.from = (keys w.writer).publicKey ∧ ∃ nonceBytes,
    Yields (WebClient.encrypt c (keys w.writer).privateKey w.payload.to w.text nonceBytes)
      (w.payload.ciphertext, w.payload.nonce)

/-- A posted message with the string that it was posted to. -/
def postedPayload (p : String × StoredMessage) : MessagePayload :=
  ⟨p.1, p.2.from, p.2.ciphertext, p.2.nonce⟩

/-- What an action writes is written by its user, and encrypted for the recipient. -/
theorem ChatClient.encrypted_of_mem_writes {User : Type} {c : Crates} {keys : User → Keypair}
    {user : User} {self : ChatClient} {action : ClientAction} (hkeys : self.keys = keys user)
    {w : Written User} (hw : w ∈ self.writes c user action) :
    w.writer = user ∧ w.Encrypted c keys := by
  unfold writes at hw
  split at hw
  · obtain ⟨payload, hpayload, rfl⟩ := List.mem_map.mp hw
    obtain ⟨contact, -, hto, hfrom, hencrypt⟩ := outgoing_eq_some (Option.mem_toList.mp hpayload)
    rename_i nonceBytes
    refine ⟨rfl, hfrom.trans (congrArg Keypair.publicKey hkeys), nonceBytes, ?_⟩
    rw [← hkeys]
    exact hto ▸ hencrypt
  · cases hw

namespace Chat

variable {User : Type} {c : Crates} {publicKeyOf : c.SecretKey → c.PublicKey}
  {fromUtf8Lossy : List UInt8 → String} {codecs : Codecs} {keys : User → Keypair}
  {posts : List (Written User) → MessagePayload → Prop} {chat : Chat User} {user : User}

/-- What holds of a chat after any events: the clients show what was written and posted, what was
written is encrypted, and what was posted is admitted by `posts`. -/
structure Sound (c : Crates) (codecs : Codecs) (keys : User → Keypair)
    (posts : List (Written User) → MessagePayload → Prop) (chat : Chat User) : Prop where
  clients : ∀ user, Traced keys chat.written chat.server.posted user (chat.client user)
  written : ∀ w ∈ chat.written, w.Encrypted c keys
  posted : ∀ p ∈ chat.server.posted, posts chat.written (postedPayload p)
  addressed : ∀ p ∈ chat.server.posted, ∀ user,
    generateKey codecs.sha1 p.1 = generateKey codecs.sha1 (keys user).publicKey →
      p.1 = (keys user).publicKey

/-- Nothing is shown, written or posted at the start. -/
theorem sound_start : Sound c codecs keys posts (start keys) := by
  refine ⟨fun user => traced_new, fun w hw => ?_, fun p hp => ?_, fun p hp => ?_⟩
  · cases hw
  · cases hp
  · cases hp

/-- What is in the mailbox of a user has been posted to the user. -/
theorem Sound.exists_of_mem_mailbox (h : Sound c codecs keys posts chat) {msg : PollMessage}
    (hmsg : msg ∈ (chat.server.mailbox codecs
      (generateKey codecs.sha1 (keys user).publicKey)).map StoredMessage.toPoll) :
    ∃ p ∈ chat.server.posted, p.1 = (keys user).publicKey ∧ p.2.toPoll = msg := by
  obtain ⟨stored, hstored, rfl⟩ := List.mem_map.mp hmsg
  obtain ⟨p, hp, rfl⟩ := List.mem_map.mp hstored
  obtain ⟨hposted, hkey⟩ := List.mem_filter.mp hp
  exact ⟨p, hposted, h.addressed p hposted user (of_decide_eq_true hkey), rfl⟩

variable [DecidableEq User]

/-- The action of a user. -/
theorem Sound.act (h : Sound c codecs keys posts chat)
    (hgenerated : ∀ user, (keys user).Generated c publicKeyOf)
    (hmono : ∀ written more payload, posts written payload → posts (written ++ more) payload)
    (user : User) {action : ClientAction}
    (hpossible : chat.Possible codecs keys posts (.act user action)) :
    Sound c codecs keys posts (chat.step c fromUtf8Lossy codecs (.act user action)) := by
  have hwrites : ∀ w ∈ (chat.client user).writes c user action,
      w.writer = user ∧ w.Encrypted c keys := fun w hw =>
    ChatClient.encrypted_of_mem_writes (h.clients user).sameKeys hw
  refine ⟨fun other => ?_, fun w hw => ?_, fun p hp => hmono _ _ _ (h.posted p hp), h.addressed⟩
  · show Traced keys (chat.written ++ _) chat.server.posted other
      (Function.update chat.client user _ other)
    by_cases hother : other = user
    · rw [hother, Function.update_self]
      exact (h.clients user).act hpossible (hgenerated user).ne_empty fun msg hmsg =>
        h.exists_of_mem_mailbox hmsg
    · rw [Function.update_of_ne hother]
      refine (h.clients other).mono (List.subset_append_left _ _) (List.Subset.refl _) ?_
      intro w hw hwriter
      rcases List.mem_append.mp hw with hold | hnew
      · exact hold
      · exact absurd (hwriter.symm.trans (hwrites w hnew).1) hother
  · rcases List.mem_append.mp hw with hold | hnew
    · exact h.written w hold
    · exact (hwrites w hnew).2

/-- A message that comes to the server is stored or cannot be serialized. -/
theorem post_cases (codecs : Codecs) (server : MailServer) (payload : MessagePayload)
    (seconds : ℕ) :
    (server.post codecs seconds (.ok payload)).2 = server ∨
      (server.post codecs seconds (.ok payload)).2 =
        { server with
          posted := server.posted ++ [(payload.to, Network.storedMessage payload seconds)] } := by
  unfold MailServer.post
  dsimp only
  split
  · exact Or.inr rfl
  · exact Or.inl rfl

/-- A message that comes to the server. -/
theorem Sound.post (h : Sound c codecs keys posts chat) {payload : MessagePayload} {seconds : ℕ}
    (hpossible : chat.Possible codecs keys posts (.post payload seconds)) :
    Sound c codecs keys posts (chat.step c fromUtf8Lossy codecs (.post payload seconds)) := by
  rcases post_cases codecs chat.server payload seconds with hsame | hstored
  · have hchat : chat.step c fromUtf8Lossy codecs (.post payload seconds) = chat := by
      show { chat with server := _ } = chat
      rw [hsame]
    rw [hchat]
    exact h
  · have hposted : (chat.step c fromUtf8Lossy codecs (.post payload seconds)).server.posted =
        chat.server.posted ++ [(payload.to, Network.storedMessage payload seconds)] :=
      congrArg MailServer.posted hstored
    have hnew : postedPayload (payload.to, Network.storedMessage payload seconds) = payload := rfl
    refine ⟨fun other => ?_, h.written, fun p hp => ?_, fun p hp => ?_⟩
    · refine (h.clients other).mono (List.Subset.refl _) ?_ fun w hw _ => hw
      rw [hposted]
      exact List.subset_append_left _ _
    · rw [hposted] at hp
      rcases List.mem_append.mp hp with hold | hp
      · exact h.posted p hold
      · rw [List.mem_singleton.mp hp, hnew]
        exact hpossible.1
    · rw [hposted] at hp
      rcases List.mem_append.mp hp with hold | hp
      · exact h.addressed p hold
      · rw [List.mem_singleton.mp hp]
        exact hpossible.2

/-- All the events, by induction. -/
theorem Sound.run (hgenerated : ∀ user, (keys user).Generated c publicKeyOf)
    (hmono : ∀ written more payload, posts written payload → posts (written ++ more) payload)
    (events : List (ChatEvent User)) (h : Sound c codecs keys posts chat)
    (hevents : AllPossible c fromUtf8Lossy codecs keys posts chat events) :
    Sound c codecs keys posts (chat.run c fromUtf8Lossy codecs events) := by
  induction events generalizing chat with
  | nil => exact h
  | cons event events ih =>
    cases event with
    | act user action => exact ih (h.act hgenerated hmono user hevents.1) hevents.2
    | post payload seconds => exact ih (h.post hevents.1) hevents.2

end Chat

end TaceChat
