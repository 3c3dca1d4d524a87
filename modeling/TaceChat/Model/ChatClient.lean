import TaceChat.Model.Keys
import TaceChat.Model.WebMessages

/-!
# The web client of a user

`ChatClient` is the state of the page (`main.js`): the key pair, the contacts and the conversations,
which are persistent, and the state of the view. A `ClientAction` is what the page runs without a
pause. A call of `sendMessage` waits for its request between reading the selected contact and adding
the message, and so does a call of `pollMessages` before it reads the response, so each is two
actions, and others may come in between.

The order in which the contacts are listed, the modals and the chart are left out. The times, the
nonces and the ids of new contacts are arguments.
-/

set_option autoImplicit false

namespace TaceChat

/-- The UTF-8 bytes of a string (`as_bytes`). -/
def asBytes (s : String) : List UInt8 := s.toUTF8.data.toList

/-- `encrypt` of the web client. -/
def WebClient.encrypt (c : Crates) (myPrivateKeyHex theirPublicKeyHex plaintext : String)
    (nonceBytes : Vector UInt8 12) : ExceptT String Option (List UInt8 × List UInt8) :=
  Keys.encrypt c myPrivateKeyHex theirPublicKeyHex (asBytes plaintext) nonceBytes

/-- The value of a call into the wasm module. `none` when it throws, also when the module panics. -/
def jsValue {α : Type} (call : ExceptT String Option α) : Option α :=
  match call.run with
  | some (.ok a) => some a
  | _ => none

/-- The fields of the form for a contact. -/
structure NewContact where
  name : String
  publicKey : String
  deriving DecidableEq

/-- The client with its keys, its form fields and its requests in flight. -/
structure ChatClient extends WebClient where
  keys : Keypair
  activeContactId : Option String
  newMessage : String
  newContact : NewContact
  isPolling : Bool
  /-- The payloads of the calls of `sendMessage` that wait for their request. -/
  sending : List MessagePayload

/-- What the user does, and the answers that come in. `sendMessage` and `pollMessages` are split at
their requests, because other actions come between. -/
inductive ClientAction
  | selectContact (contactId : String)
  | typeMessage (text : String)
  | typeContact (newContact : NewContact)
  | addContact (now : ℕ)
  /-- `newName` is the answer to the prompt. -/
  | renameContact (contactId : String) (newName : Option String)
  /-- The page is loaded again, with `generated` at hand as a new key pair. -/
  | reload (generated : Keypair)
  /-- `sendMessage` up to its request. -/
  | sendMessage (nonceBytes : Vector UInt8 12)
  /-- The rest of `sendMessage` after a request that succeeds. -/
  | messageSent (payload : MessagePayload) (now : ℕ)
  | sendFailed (payload : MessagePayload)
  /-- `pollMessages` up to its requests. -/
  | startPoll
  /-- The rest of `pollMessages` after a response with these messages. -/
  | pollAnswered (newContactId : List Contact → String) (response : List PollMessage)
  | pollFailed

namespace ChatClient

variable (c : Crates) (fromUtf8Lossy : List UInt8 → String) (self : ChatClient)

/-- The contact that is selected, if it exists. -/
def activeContact : Option Contact :=
  self.contacts.find? fun contact => some contact.id = self.activeContactId

/-- The name of the property that `messages[activeContactId]` reads and writes. -/
def activeConversationId : String := self.activeContactId.getD "null"

/-- The messages in the chat window. -/
def chatWindow : List ShownMessage :=
  if self.activeContact.isSome then self.conversation self.activeConversationId else []

/-- The keys of `initWasmAndApp`. -/
def initKeys (generated : Keypair) : Keypair :=
  if self.keys.privateKey = "" ∨ self.keys.publicKey = "" then generated else self.keys

/-- The contacts, the messages and the keys are persistent. -/
def reload (generated : Keypair) : ChatClient where
  toWebClient := self.toWebClient
  keys := self.initKeys generated
  activeContactId := none
  newMessage := ""
  newContact := ⟨"", ""⟩
  isPolling := false
  sending := []

/-- A contact that cannot be added is alerted and stays in the form. -/
def addContact (now : ℕ) : ChatClient :=
  match TaceChat.addContact now self.newContact.name self.newContact.publicKey self.contacts with
  | some contacts => { self with contacts, newContact := ⟨"", ""⟩ }
  | none => self

/-- An empty name, or a prompt that is dismissed, changes nothing. -/
def renameContact (contactId : String) (newName : Option String) : ChatClient :=
  match newName with
  | none => self
  | some newName =>
    if jsTrim newName = "" then self
    else
      let index := self.contacts.findIdx fun contact => contact.id = contactId
      { self with
        contacts := self.contacts.modify index fun contact =>
          { contact with name := jsTrim newName } }

/-- The payload that `sendMessage` posts. `none` when it returns or throws before its request. -/
def outgoing (nonceBytes : Vector UInt8 12) : Option MessagePayload :=
  if jsTrim self.newMessage = "" ∨ self.activeContactId.getD "" = "" then none
  else do
    let contact ← self.activeContact
    let (ciphertext, nonce) ← jsValue
      (WebClient.encrypt c self.keys.privateKey contact.publicKey self.newMessage nonceBytes)
    return sendMessagePayload self.keys contact ciphertext nonce

/-- `sendMessage` up to its request. The form keeps its text until the request succeeds. -/
def sendMessage (nonceBytes : Vector UInt8 12) : ChatClient :=
  { self with sending := self.sending ++ (self.outgoing c nonceBytes).toList }

/-- The message is added to the conversation that is selected now. -/
def messageSent (payload : MessagePayload) (now : ℕ) : ChatClient :=
  let message : ShownMessage :=
    { ciphertext := payload.ciphertext
      nonce := payload.nonce
      timestamp := now
      sender := .me
      «from» := none }
  let contactId := self.activeConversationId
  { self with
    toWebClient := self.setConversation contactId (self.conversation contactId ++ [message])
    newMessage := ""
    sending := self.sending.erase payload }

/-- `pollMessages` up to its request. A poll that is under way is not joined by another. -/
def startPoll : ChatClient :=
  if self.keys.publicKey = "" ∨ self.isPolling then self else { self with isPolling := true }

/-- The messages of a response are received with the keys of the client. -/
def pollAnswered (newContactId : List Contact → String) (response : List PollMessage) :
    ChatClient :=
  let decrypts publicKey ciphertext nonce := (jsValue
    (WebClient.decrypt c fromUtf8Lossy self.keys.privateKey publicKey ciphertext nonce)).isSome
  { self with
    toWebClient := self.receiveMessages newContactId decrypts response
    isPolling := false }

/-- The client after an action. -/
def act : ClientAction → ChatClient
  | .selectContact contactId => { self with activeContactId := some contactId }
  | .typeMessage text => { self with newMessage := text }
  | .typeContact newContact => { self with newContact }
  | .addContact now => self.addContact now
  | .renameContact contactId newName => self.renameContact contactId newName
  | .reload generated => self.reload generated
  | .sendMessage nonceBytes => self.sendMessage c nonceBytes
  | .messageSent payload now => self.messageSent payload now
  | .sendFailed payload => { self with sending := self.sending.erase payload }
  | .startPoll => self.startPoll
  | .pollAnswered newContactId response =>
    self.pollAnswered c fromUtf8Lossy newContactId response
  | .pollFailed => { self with isPolling := false }

/-- The text of a message in the chat window. -/
def decryptMessage (msg : ShownMessage) : String :=
  let contact := self.contacts.find? fun contact =>
    some contact.publicKey = msg.from ||
      (self.activeContact.isSome && some contact.id = self.activeContactId)
  match contact with
  | none => "[Decryption Error: Contact not found]"
  | some contact =>
    match jsValue (WebClient.decrypt c fromUtf8Lossy self.keys.privateKey contact.publicKey
      msg.ciphertext msg.nonce) with
    | none => "[Could not decrypt message]"
    | some text => text

end ChatClient

end TaceChat
