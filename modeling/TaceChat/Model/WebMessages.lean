import TaceChat.Model.Contacts

/-!
# Messages in the web client

`pollMessages` goes through the messages of a poll response (`main.js`). It finds the contact with
the public key of the sender or adds one, and appends the message to the conversation of that
contact, unless the conversation has a message of the other side with the same time already.

An ISO string is given by the time that it spells, in milliseconds. An exception ends the response,
and what was written before it stays. `newContactId` is the id that a new contact gets from the
clock and from `Math.random`, and `decrypts` says whether `decrypt` succeeds. Both are parameters.
-/

set_option autoImplicit false

namespace TaceChat

/-- On which side an entry of a conversation is shown. -/
inductive Sender
  | me
  | them
  deriving DecidableEq

/-- An entry of a conversation. What the client has sent itself has no `from`. -/
structure ShownMessage where
  ciphertext : List UInt8
  nonce : List UInt8
  timestamp : ℕ
  sender : Sender
  «from» : Option String
  deriving DecidableEq

/-- The contacts, and the conversations by the id of the contact. -/
structure WebClient where
  contacts : List Contact
  messages : String → Option (List ShownMessage)

/-- `new Date(timestamp * 1000).toISOString()`. It throws (`none`) when the time is out of the range
of a `Date`. -/
def toISOString (timestamp : ℕ) : Option ℕ :=
  if timestamp * 1000 ≤ 8640000000000000 then some (timestamp * 1000) else none

namespace WebClient

/-- The conversation with a contact. -/
def conversation (self : WebClient) (contactId : String) : List ShownMessage :=
  (self.messages contactId).getD []

/-- Replaces the conversation with a contact. -/
def setConversation (self : WebClient) (contactId : String) (conversation : List ShownMessage) :
    WebClient :=
  { self with messages := Function.update self.messages contactId (some conversation) }

section Poll

variable (newContactId : List Contact → String)
  (decrypts : String → List UInt8 → List UInt8 → Bool)

/-- The contact of the sender, and the client with that contact. `none` when a message of an unknown
sender cannot be decrypted. -/
def findOrAddContact (self : WebClient) (msg : PollMessage) : Option (Contact × WebClient) :=
  match self.contacts.find? fun c => c.publicKey = msg.from with
  | some contact => some (contact, self)
  | none =>
    if decrypts msg.from msg.ciphertext msg.nonce then
      let contact : Contact :=
        { id := newContactId self.contacts
          name := "Unknown (" ++ String.ofList (msg.from.toList.take 8) ++ "...)"
          publicKey := msg.from }
      some (contact, { self with contacts := self.contacts ++ [contact] })
    else none

/-- One message of a response. The result says whether the response goes on. -/
def receiveMessage (self : WebClient) (msg : PollMessage) : WebClient × Bool :=
  match self.findOrAddContact newContactId decrypts msg with
  | none => (self, true)
  | some (contact, self) =>
    let conversation := self.conversation contact.id
    let self := self.setConversation contact.id conversation
    match toISOString msg.timestamp with
    | none => (self, false)
    | some timestamp =>
      let messageExists := conversation.any fun m => m.timestamp = timestamp && m.sender = .them
      if messageExists then (self, true)
      else
        let newMsg : ShownMessage :=
          { ciphertext := msg.ciphertext
            nonce := msg.nonce
            timestamp
            sender := .them
            «from» := some msg.from }
        (self.setConversation contact.id (conversation ++ [newMsg]), true)

/-- The messages of a response in their order, up to the first that throws. -/
def receiveMessages (self : WebClient) : List PollMessage → WebClient
  | [] => self
  | msg :: rest =>
    let (self, goesOn) := self.receiveMessage newContactId decrypts msg
    if goesOn then self.receiveMessages rest else self

/-- The client after the responses, in their order. -/
def pollMessages (self : WebClient) (responses : List (List PollMessage)) : WebClient :=
  responses.foldl (receiveMessages newContactId decrypts) self

end Poll

end WebClient

end TaceChat
