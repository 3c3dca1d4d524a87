import Mathlib.Data.List.Nodup
import Mathlib.Data.List.TakeWhile
import TaceChat.Library.Census
import TaceChat.Model.WebMessages

/-!
# What the web client shows

A poll response repeats the whole mailbox, and the client tells a repeated message from a new one by
its sender and its time in seconds. So of the messages that it reaches it shows exactly those that
are the first of their sender and time (`Shows`). Each delivered message is shown exactly once, from
given responses, if and only if exactly one of these has its sender and content (`shown_once_iff`).
When no message is delivered with two times, that says that the times tell the messages of each
sender apart (`firstsIdentify_iff`).
-/

set_option autoImplicit false

namespace TaceChat

/-- The entry that a message becomes. -/
def PollMessage.shown (msg : PollMessage) : ShownMessage where
  ciphertext := msg.ciphertext
  nonce := msg.nonce
  timestamp := msg.timestamp * 1000
  sender := .them
  «from» := some msg.from

/-- The entry shows the message. The time does not matter. -/
def ShownMessage.shows (e : ShownMessage) (msg : PollMessage) : Bool :=
  e.sender = .them && e.from = some msg.from && e.ciphertext = msg.ciphertext && e.nonce = msg.nonce

/-- An entry shows a message when it has its sender, its ciphertext and its nonce. -/
theorem ShownMessage.shows_iff {e : ShownMessage} {msg : PollMessage} : e.shows msg = true ↔
    e.sender = .them ∧ e.from = some msg.from ∧ e.ciphertext = msg.ciphertext ∧
      e.nonce = msg.nonce := by
  simp only [shows, Bool.and_eq_true, decide_eq_true_eq, and_assoc]

/-- The same sender and the same content. -/
def PollMessage.SameMessage (m msg : PollMessage) : Prop :=
  m.from = msg.from ∧ m.ciphertext = msg.ciphertext ∧ m.nonce = msg.nonce

/-- The entry of one message shows another one that has the same sender and content. -/
theorem PollMessage.shown_shows {m msg : PollMessage} :
    m.shown.shows msg = true ↔ m.SameMessage msg := by
  rw [ShownMessage.shows_iff]
  show Sender.them = .them ∧ some m.from = some msg.from ∧ _ ↔ _
  rw [Option.some_inj, and_iff_right rfl]
  rfl

/-- A response: messages of the mailbox in the order of the mailbox, possibly repeated. -/
def Drawn (mailbox response : List PollMessage) : Prop :=
  ∃ indices : List ℕ, indices.Pairwise (· ≤ ·) ∧
    indices.map (fun i => mailbox[i]?) = response.map some

/-- The message is in the list, and none before it has its sender and time. -/
def IsFirst (l : List PollMessage) (m : PollMessage) : Prop :=
  ∃ before after, l = before ++ m :: after ∧
    ∀ x ∈ before, x.from = m.from → x.timestamp ≠ m.timestamp

/-- The messages that the client reaches: those of each response up to the first whose time cannot
be spelled. -/
def reached (responses : List (List PollMessage)) : List PollMessage :=
  responses.flatMap fun response => response.takeWhile fun m => (toISOString m.timestamp).isSome

/-- Each delivered message is the same as exactly one of the messages that come first. -/
def FirstsIdentify (responses : List (List PollMessage)) : Prop :=
  ∀ msg ∈ responses.flatten, ∃! m, IsFirst (reached responses) m ∧ m.SameMessage msg

/-- The messages of a sender have one time exactly when they are the same. -/
def TimesIdentify (l : List PollMessage) : Prop :=
  ∀ m ∈ l, ∀ m' ∈ l, m.from = m'.from → (m.timestamp = m'.timestamp ↔ m.SameMessage m')

/-! ### Messages that come first -/

section Firsts

variable {l : List PollMessage} {m m' msg : PollMessage}

/-- The first one of its kind is in the list. -/
theorem IsFirst.mem (h : IsFirst l m) : m ∈ l := by
  obtain ⟨before, after, rfl, -⟩ := h
  exact List.mem_append_right _ List.mem_cons_self

/-- One more message at the end comes first when no other has its sender and time. -/
theorem isFirst_append_singleton : IsFirst (l ++ [msg]) m ↔
    IsFirst l m ∨ m = msg ∧ ∀ x ∈ l, x.from = msg.from → x.timestamp ≠ msg.timestamp := by
  constructor
  · rintro ⟨before, after, heq, hbefore⟩
    rcases List.eq_nil_or_concat after with rfl | ⟨after, last, rfl⟩
    · -- It is the last one.
      obtain ⟨rfl, hlast⟩ := List.append_inj' heq rfl
      obtain rfl := List.singleton_inj.mp hlast
      exact Or.inr ⟨rfl, hbefore⟩
    · rw [List.concat_eq_append, ← List.cons_append, ← List.append_assoc] at heq
      exact Or.inl ⟨before, after, (List.append_inj' heq rfl).1, hbefore⟩
  · rintro (⟨before, after, rfl, hbefore⟩ | ⟨rfl, hnew⟩)
    · exact ⟨before, after ++ [msg], by simp, hbefore⟩
    · exact ⟨l, [], rfl, hnew⟩

/-- If any message has a sender and a time, a first one does. -/
theorem exists_isFirst {sender : String} {time : ℕ}
    (h : ∃ x ∈ l, x.from = sender ∧ x.timestamp = time) :
    ∃ m, IsFirst l m ∧ m.from = sender ∧ m.timestamp = time := by
  induction l using List.reverseRecOn with
  | nil =>
    obtain ⟨x, hx, -⟩ := h
    cases hx
  | append_singleton l last ih =>
    by_cases hold : ∃ x ∈ l, x.from = sender ∧ x.timestamp = time
    · obtain ⟨m, hm, hsame⟩ := ih hold
      exact ⟨m, isFirst_append_singleton.mpr (Or.inl hm), hsame⟩
    · obtain ⟨x, hx, rfl, rfl⟩ := h
      rcases List.mem_append.mp hx with hx | hx
      · exact absurd ⟨x, hx, rfl, rfl⟩ hold
      · obtain rfl := List.mem_singleton.mp hx
        refine ⟨x, isFirst_append_singleton.mpr (Or.inr ⟨rfl, ?_⟩), rfl, rfl⟩
        intro y hy hfrom htime
        exact hold ⟨y, hy, hfrom, htime⟩

/-- Of one sender and time, only one message comes first. -/
theorem IsFirst.eq (h : IsFirst l m) (h' : IsFirst l m') (hfrom : m.from = m'.from)
    (htime : m.timestamp = m'.timestamp) : m = m' := by
  induction l using List.reverseRecOn with
  | nil => cases h.mem
  | append_singleton l last ih =>
    rcases isFirst_append_singleton.mp h with hm | ⟨rfl, hnew⟩
    · rcases isFirst_append_singleton.mp h' with hm' | ⟨rfl, hnew'⟩
      · exact ih hm hm'
      · exact absurd htime (hnew' m hm.mem hfrom)
    · rcases isFirst_append_singleton.mp h' with hm' | ⟨rfl, -⟩
      · exact absurd htime.symm (hnew m' hm'.mem hfrom.symm)
      · rfl

/-- When all times can be spelled, the client reaches everything. -/
theorem reached_eq_flatten {responses : List (List PollMessage)}
    (hvalid : ∀ m ∈ responses.flatten, (toISOString m.timestamp).isSome) :
    reached responses = responses.flatten := by
  have hresponse : ∀ r ∈ responses, r.takeWhile (fun m => (toISOString m.timestamp).isSome) = r :=
    fun r hr => List.takeWhile_eq_self_iff.mpr fun m hm =>
      hvalid m (List.mem_flatten.mpr ⟨r, hr, hm⟩)
  unfold reached
  rw [List.flatMap_def, List.map_congr_left hresponse, List.map_id']

/-- When no message is delivered with two times, the times have to tell the messages of each sender
apart. -/
theorem firstsIdentify_iff {responses : List (List PollMessage)}
    (hvalid : ∀ m ∈ responses.flatten, (toISOString m.timestamp).isSome)
    (honce : ∀ m ∈ responses.flatten, ∀ m' ∈ responses.flatten, m.SameMessage m' →
      m.timestamp = m'.timestamp) :
    FirstsIdentify responses ↔ TimesIdentify responses.flatten := by
  unfold FirstsIdentify
  rw [reached_eq_flatten hvalid]
  constructor
  · intro h m hm m' hm' hfrom
    refine ⟨fun htime => ?_, honce m hm m' hm'⟩
    obtain ⟨x, ⟨hx, hsame⟩, -⟩ := h m hm
    obtain ⟨x', ⟨hx', hsame'⟩, -⟩ := h m' hm'
    -- Both come first of the one sender and time.
    have heq : x = x' := by
      refine hx.eq hx' (hsame.1.trans (hfrom.trans hsame'.1.symm)) ?_
      rw [honce x hx.mem m hm hsame, honce x' hx'.mem m' hm' hsame', htime]
    obtain ⟨-, hciphertext, hnonce⟩ := hsame
    obtain ⟨-, hciphertext', hnonce'⟩ := hsame'
    rw [heq] at hciphertext hnonce
    exact ⟨hfrom, hciphertext.symm.trans hciphertext', hnonce.symm.trans hnonce'⟩
  · intro h msg hmsg
    obtain ⟨m, hm, hfrom, htime⟩ := exists_isFirst ⟨msg, hmsg, rfl, rfl⟩
    refine ⟨m, ⟨hm, (h m hm.mem msg hmsg hfrom).mp htime⟩, ?_⟩
    rintro m' ⟨hm', hsame⟩
    exact hm'.eq hm (hsame.1.trans hfrom.symm) ((honce m' hm'.mem msg hmsg hsame).trans htime.symm)

end Firsts

/-- A time in range is shown in milliseconds. -/
theorem toISOString_isSome {timestamp : ℕ} (h : (toISOString timestamp).isSome) :
    toISOString timestamp = some (timestamp * 1000) := by
  unfold toISOString at h ⊢
  split
  · rfl
  · rename_i hlate
    rw [if_neg hlate] at h
    cases h

namespace WebClient

/-- The contact with a public key: the first one. -/
def contactFor (self : WebClient) (publicKey : String) : Option Contact :=
  self.contacts.find? fun c => c.publicKey = publicKey

/-- There is one entry that shows the message, and it is in the conversation with the contact of its
sender. -/
def ShowsOnce (self : WebClient) (msg : PollMessage) : Prop :=
  ∃ c, self.contactFor msg.from = some c ∧
    ∀ k, (self.conversation k).countP (fun e => e.shows msg) = if k = c.id then 1 else 0

variable {self self' : WebClient} {msg : PollMessage} {k : String}

/-- Only one conversation is replaced. -/
theorem conversation_setConversation {l : List ShownMessage} (j : String) :
    (self.setConversation j l).conversation k = if k = j then l else self.conversation k := by
  unfold conversation setConversation
  dsimp only
  split
  · rename_i hk
    rw [hk, Function.update_self]
    rfl
  · rename_i hk
    rw [Function.update_of_ne hk]

/-- A contact is found by its public key. -/
theorem publicKey_of_contactFor {publicKey : String} {c : Contact}
    (h : self.contactFor publicKey = some c) : c.publicKey = publicKey := by
  have hfound := List.find?_some h
  exact of_decide_eq_true hfound

/-- Contacts of two senders have different ids. -/
theorem eq_of_contactFor (hids : (self.contacts.map Contact.id).Nodup) {p p' : String}
    {c c' : Contact} (h : self.contactFor p = some c) (h' : self.contactFor p' = some c')
    (hid : c.id = c'.id) : p = p' := by
  have heq : c = c' := List.inj_on_of_nodup_map hids (List.mem_of_find?_eq_some h)
    (List.mem_of_find?_eq_some h') hid
  rw [← publicKey_of_contactFor h, ← publicKey_of_contactFor h', heq]

/-- What happens to the contacts: more may stand behind the old ones. -/
structure Grows (before after : WebClient) : Prop where
  contactFor : ∀ p c, before.contactFor p = some c → after.contactFor p = some c
  ids : (before.contacts.map Contact.id).Nodup → (after.contacts.map Contact.id).Nodup

variable {newContactId : List Contact → String} {decrypts : String → List UInt8 → List UInt8 → Bool}

/-- The contact of the sender afterwards. -/
theorem findOrAddContact_spec (hfresh : ∀ contacts, ∀ c ∈ contacts, c.id ≠ newContactId contacts)
    {contact : Contact}
    (h : self.findOrAddContact newContactId decrypts msg = some (contact, self')) :
    Grows self self' ∧ self'.messages = self.messages ∧
      self'.contactFor msg.from = some contact := by
  unfold findOrAddContact at h
  split at h
  · rename_i c hfind
    cases h
    exact ⟨⟨fun _ _ hc => hc, fun hids => hids⟩, rfl, hfind⟩
  · rename_i hnone
    split at h
    · cases h
      refine ⟨⟨?_, ?_⟩, rfl, ?_⟩
      · intro p c hc
        show (self.contacts ++ [_]).find? _ = some c
        rw [List.find?_append]
        exact Option.or_eq_some_iff.mpr (Or.inl hc)
      · intro hids
        rw [List.map_append, List.map_singleton]
        refine hids.append (List.nodup_singleton _) ?_
        intro id hid hnew
        obtain ⟨c, hc, rfl⟩ := List.mem_map.mp hid
        exact hfresh self.contacts c hc (List.mem_singleton.mp hnew)
      · show (self.contacts ++ [_]).find? _ = some _
        rw [List.find?_append, hnone]
        simp
    · cases h

/-- A message of a sender that can be decrypted has a contact. -/
theorem findOrAddContact_isSome (hdecrypts : decrypts msg.from msg.ciphertext msg.nonce = true) :
    ∃ contact self', self.findOrAddContact newContactId decrypts msg = some (contact, self') := by
  unfold findOrAddContact
  split
  · exact ⟨_, _, rfl⟩
  · rw [if_pos hdecrypts]
    exact ⟨_, _, rfl⟩

/-- The conversations are what `messages` holds. -/
theorem conversation_of_messages (h : self'.messages = self.messages) :
    self'.conversation k = self.conversation k := by
  unfold conversation
  rw [h]

/-- A conversation is replaced by itself. -/
theorem conversation_setConversation_same (j : String) :
    (self.setConversation j (self.conversation j)).conversation k = self.conversation k := by
  rw [conversation_setConversation]
  split
  · rename_i hk
    rw [hk]
  · rfl

/-- A message appends its entry to the conversation of its sender, when that has no entry of the
other side with the same time, or changes no conversation. -/
theorem receiveMessage_effect (hfresh : ∀ contacts, ∀ c ∈ contacts, c.id ≠ newContactId contacts)
    (decrypts : String → List UInt8 → List UInt8 → Bool) (self : WebClient) (msg : PollMessage) :
    Grows self (self.receiveMessage newContactId decrypts msg).1 ∧
      ((∀ k, (self.receiveMessage newContactId decrypts msg).1.conversation k =
          self.conversation k) ∨
        ∃ c, (self.receiveMessage newContactId decrypts msg).1.contactFor msg.from = some c ∧
          (toISOString msg.timestamp).isSome ∧
          (∀ e ∈ self.conversation c.id, e.sender = .them → e.timestamp ≠ msg.shown.timestamp) ∧
          ∀ k, (self.receiveMessage newContactId decrypts msg).1.conversation k =
            if k = c.id then self.conversation k ++ [msg.shown] else self.conversation k) := by
  unfold receiveMessage
  cases hfind : self.findOrAddContact newContactId decrypts msg with
  | none => exact ⟨⟨fun _ _ hc => hc, fun hids => hids⟩, Or.inl fun _ => rfl⟩
  | some found =>
    obtain ⟨contact, client⟩ := found
    obtain ⟨hgrows, hmessages, hcontact⟩ := findOrAddContact_spec hfresh hfind
    have hconv : ∀ k, client.conversation k = self.conversation k := fun k =>
      conversation_of_messages hmessages
    have hsame : ∀ k,
        (client.setConversation contact.id (client.conversation contact.id)).conversation k =
          self.conversation k :=
      fun k => (conversation_setConversation_same _).trans (hconv k)
    dsimp only
    cases htime : toISOString msg.timestamp with
    | none => exact ⟨⟨hgrows.contactFor, hgrows.ids⟩, Or.inl hsame⟩
    | some timestamp =>
      have hspelled : timestamp = msg.shown.timestamp := by
        have := toISOString_isSome (Option.isSome_of_eq_some htime)
        rw [htime] at this
        exact Option.some.inj this
      dsimp only
      split
      · exact ⟨⟨hgrows.contactFor, hgrows.ids⟩, Or.inl hsame⟩
      · rename_i hnew
        refine ⟨⟨hgrows.contactFor, hgrows.ids⟩, Or.inr ⟨contact, hcontact, rfl, ?_, fun k => ?_⟩⟩
        · intro e he hthem hsametime
          refine hnew (List.any_eq_true.mpr ⟨e, (hconv contact.id).symm ▸ he, ?_⟩)
          rw [hthem, hsametime, hspelled]
          simp
        · rw [conversation_setConversation, hsame, hconv, hspelled]
          split
          · rename_i hk
            rw [hk]
            rfl
          · rfl

/-- After a message that can be read and whose time can be spelled, the conversation of its sender
has an entry with that time, and the response goes on. -/
theorem receiveMessage_valid (hfresh : ∀ contacts, ∀ c ∈ contacts, c.id ≠ newContactId contacts)
    (self : WebClient) (hdecrypts : decrypts msg.from msg.ciphertext msg.nonce = true)
    (hvalid : (toISOString msg.timestamp).isSome) :
    (self.receiveMessage newContactId decrypts msg).2 = true ∧
      ∃ c, (self.receiveMessage newContactId decrypts msg).1.contactFor msg.from = some c ∧
        ∃ e ∈ (self.receiveMessage newContactId decrypts msg).1.conversation c.id,
          e.sender = .them ∧ e.timestamp = msg.shown.timestamp := by
  have hsome : ∃ contact client, self.findOrAddContact newContactId decrypts msg =
      some (contact, client) := findOrAddContact_isSome hdecrypts
  obtain ⟨contact, client, hfind⟩ := hsome
  obtain ⟨-, -, hcontact⟩ := findOrAddContact_spec hfresh hfind
  unfold receiveMessage
  rw [hfind, toISOString_isSome hvalid]
  dsimp only
  split
  · rename_i hexists
    obtain ⟨e, he, hmatch⟩ := List.any_eq_true.mp hexists
    rw [Bool.and_eq_true, decide_eq_true_eq, decide_eq_true_eq] at hmatch
    refine ⟨rfl, contact, hcontact, e, ?_, hmatch.2, hmatch.1⟩
    rw [conversation_setConversation_same]
    exact he
  · refine ⟨rfl, contact, hcontact, msg.shown, ?_, rfl, rfl⟩
    rw [conversation_setConversation, if_pos rfl]
    exact List.mem_append_right _ List.mem_cons_self

/-- A message whose time cannot be spelled ends the response. -/
theorem receiveMessage_late (self : WebClient)
    (hdecrypts : decrypts msg.from msg.ciphertext msg.nonce = true)
    (hlate : ¬(toISOString msg.timestamp).isSome) :
    (self.receiveMessage newContactId decrypts msg).2 = false := by
  have hsome : ∃ contact client, self.findOrAddContact newContactId decrypts msg =
      some (contact, client) := findOrAddContact_isSome hdecrypts
  obtain ⟨contact, client, hfind⟩ := hsome
  unfold receiveMessage
  rw [hfind, Option.not_isSome_iff_eq_none.mp hlate]

/-! ### The invariant -/

/-- The entries of the other side after some messages are those of the messages that come first,
each in the conversation with its sender. No two of a conversation have one time. -/
structure Shows (msgs : List PollMessage) (client : WebClient) : Prop where
  ids : (client.contacts.map Contact.id).Nodup
  received : ∀ k, ∀ e ∈ client.conversation k, e.sender = .them → ∃ m, IsFirst msgs m ∧
    e = m.shown ∧ ∃ c, client.contactFor m.from = some c ∧ c.id = k
  shown : ∀ m, IsFirst msgs m →
    ∃ c, client.contactFor m.from = some c ∧ m.shown ∈ client.conversation c.id
  times : ∀ k, (client.conversation k).Pairwise fun e e' =>
    e.sender = .them → e'.sender = .them → e.timestamp ≠ e'.timestamp

variable {msgs : List PollMessage}

/-- Before a poll no message of the other side is shown. -/
theorem shows_nil (hids : (self.contacts.map Contact.id).Nodup)
    (hthem : ∀ k, ∀ e ∈ self.conversation k, e.sender ≠ .them) : Shows [] self where
  ids := hids
  received k e he h := absurd h (hthem k e he)
  shown m hm := absurd hm.mem List.not_mem_nil
  times k := by
    refine List.Pairwise.imp_of_mem ?_
      (List.pairwise_of_forall (R := fun _ _ => True) fun _ _ => trivial)
    intro e e' he _ _ h
    exact absurd h (hthem k e he)

/-- When the conversations stay and the contacts grow, the same messages are shown. -/
theorem Shows.grow (h : Shows msgs self) (hgrows : Grows self self')
    (hsame : ∀ k, self'.conversation k = self.conversation k) : Shows msgs self' where
  ids := hgrows.ids h.ids
  received k e he hthem := by
    rw [hsame] at he
    obtain ⟨m, hm, heq, c, hc, hid⟩ := h.received k e he hthem
    exact ⟨m, hm, heq, c, hgrows.contactFor _ _ hc, hid⟩
  shown m hm := by
    obtain ⟨c, hc, hshown⟩ := h.shown m hm
    refine ⟨c, hgrows.contactFor _ _ hc, ?_⟩
    rw [hsame]
    exact hshown
  times k := by
    rw [hsame]
    exact h.times k

/-- A message whose time can be spelled is shown when it comes first. -/
theorem Shows.receiveMessage (hfresh : ∀ contacts, ∀ c ∈ contacts, c.id ≠ newContactId contacts)
    (h : Shows msgs self) (hdecrypts : decrypts msg.from msg.ciphertext msg.nonce = true)
    (hvalid : (toISOString msg.timestamp).isSome) :
    Shows (msgs ++ [msg]) (self.receiveMessage newContactId decrypts msg).1 := by
  obtain ⟨hgrows, hconv⟩ := receiveMessage_effect hfresh decrypts self msg
  obtain ⟨-, d, hd, e, he, hthem, htime⟩ := receiveMessage_valid hfresh self hdecrypts hvalid
  have hpos : 0 < 1000 := by omega
  rcases hconv with hsame | ⟨c, hc, -, hnew, hconv⟩
  · -- The entry that the client has found is that of an earlier message.
    have hold : ∃ x ∈ msgs, x.from = msg.from ∧ x.timestamp = msg.timestamp := by
      rw [hsame] at he
      obtain ⟨m, hm, rfl, c, hc, hid⟩ := h.received d.id e he hthem
      exact ⟨m, hm.mem, eq_of_contactFor (hgrows.ids h.ids) (hgrows.contactFor _ _ hc) hd hid,
        Nat.eq_of_mul_eq_mul_right hpos htime⟩
    have hfirst (m : PollMessage) : IsFirst (msgs ++ [msg]) m ↔ IsFirst msgs m := by
      rw [isFirst_append_singleton, or_iff_left]
      rintro ⟨-, hnone⟩
      obtain ⟨x, hx, hfrom, htime⟩ := hold
      exact hnone x hx hfrom htime
    have hgrown := h.grow hgrows hsame
    exact ⟨hgrown.ids, fun k e he hthem => (hgrown.received k e he hthem).imp fun m hm =>
      ⟨(hfirst m).mpr hm.1, hm.2⟩, fun m hm => hgrown.shown m ((hfirst m).mp hm), hgrown.times⟩
  · -- An earlier message with its sender and time would have an entry.
    have hfirst : IsFirst (msgs ++ [msg]) msg := by
      refine isFirst_append_singleton.mpr (Or.inr ⟨rfl, ?_⟩)
      intro x hx hfrom htime
      obtain ⟨m, hm, hmfrom, hmtime⟩ := exists_isFirst ⟨x, hx, hfrom, htime⟩
      obtain ⟨c', hc', hshown⟩ := h.shown m hm
      have hcontact := hgrows.contactFor _ _ hc'
      rw [hmfrom, hc] at hcontact
      obtain rfl := Option.some.inj hcontact
      exact hnew m.shown hshown rfl (congrArg (· * 1000) hmtime)
    have hkeep : ∀ k, ∀ e ∈ self.conversation k,
        e ∈ (self.receiveMessage newContactId decrypts msg).1.conversation k := by
      intro k e he
      rw [hconv]
      split
      · exact List.mem_append_left _ he
      · exact he
    have hold : ∀ k, ∀ e ∈ self.conversation k, e.sender = .them → ∃ m, IsFirst (msgs ++ [msg]) m ∧
        e = m.shown ∧ ∃ c,
          (self.receiveMessage newContactId decrypts msg).1.contactFor m.from = some c ∧
            c.id = k := by
      intro k e he hthem
      obtain ⟨m, hm, heq, c, hc, hid⟩ := h.received k e he hthem
      exact ⟨m, isFirst_append_singleton.mpr (Or.inl hm), heq, c, hgrows.contactFor _ _ hc, hid⟩
    refine ⟨hgrows.ids h.ids, fun k e he hthem => ?_, fun m hm => ?_, fun k => ?_⟩
    · rw [hconv] at he
      split at he
      · rename_i hk
        rcases List.mem_append.mp he with he | he
        · exact hold k e he hthem
        · exact ⟨msg, hfirst, List.mem_singleton.mp he, c, hc, hk.symm⟩
      · exact hold k e he hthem
    · rcases isFirst_append_singleton.mp hm with hm | ⟨rfl, -⟩
      · obtain ⟨c', hc', hshown⟩ := h.shown m hm
        exact ⟨c', hgrows.contactFor _ _ hc', hkeep _ _ hshown⟩
      · refine ⟨c, hc, ?_⟩
        rw [hconv, if_pos rfl]
        exact List.mem_append_right _ List.mem_cons_self
    · rw [hconv]
      split
      · rename_i hk
        refine List.pairwise_append.mpr ⟨h.times k, List.pairwise_singleton _ _, ?_⟩
        intro e he e' he' hthem _
        rw [List.mem_singleton.mp he']
        exact hnew e (hk ▸ he) hthem
      · exact h.times k

/-! ### Whole responses -/

/-- The first message comes before the rest, unless it throws. -/
theorem receiveMessages_cons (rest : List PollMessage) :
    self.receiveMessages newContactId decrypts (msg :: rest) =
      if (self.receiveMessage newContactId decrypts msg).2 = true then
        (self.receiveMessage newContactId decrypts msg).1.receiveMessages newContactId decrypts rest
      else (self.receiveMessage newContactId decrypts msg).1 := rfl

/-- A response, by induction: what follows a message that throws is not reached. -/
theorem Shows.receiveMessages (hfresh : ∀ contacts, ∀ c ∈ contacts, c.id ≠ newContactId contacts)
    (response : List PollMessage)
    (hdecrypts : ∀ m ∈ response, decrypts m.from m.ciphertext m.nonce = true) :
    ∀ {msgs : List PollMessage} {self : WebClient}, Shows msgs self →
      Shows (msgs ++ response.takeWhile fun m => (toISOString m.timestamp).isSome)
        (self.receiveMessages newContactId decrypts response) := by
  induction response with
  | nil =>
    intro msgs self h
    rw [List.takeWhile_nil, List.append_nil]
    exact h
  | cons msg rest ih =>
    intro msgs self h
    have hmsg := hdecrypts msg List.mem_cons_self
    rw [receiveMessages_cons]
    by_cases hvalid : (toISOString msg.timestamp).isSome
    · rw [if_pos (receiveMessage_valid hfresh self hmsg hvalid).1, List.takeWhile_cons,
        if_pos hvalid, List.append_cons]
      exact ih (fun m hm => hdecrypts m (List.mem_cons_of_mem _ hm))
        (h.receiveMessage hfresh hmsg hvalid)
    · -- The rest of the response is lost.
      rw [receiveMessage_late self hmsg hvalid, if_neg Bool.false_ne_true,
        List.takeWhile_cons, if_neg hvalid, List.append_nil]
      obtain ⟨hgrows, hconv⟩ := receiveMessage_effect hfresh decrypts self msg
      rcases hconv with hsame | ⟨_, _, hsome, _⟩
      · exact h.grow hgrows hsame
      · exact absurd hsome hvalid

/-- The responses, one after another. -/
theorem Shows.pollMessages (hfresh : ∀ contacts, ∀ c ∈ contacts, c.id ≠ newContactId contacts)
    (responses : List (List PollMessage))
    (hdecrypts : ∀ response ∈ responses, ∀ m ∈ response,
      decrypts m.from m.ciphertext m.nonce = true) :
    ∀ {msgs : List PollMessage} {self : WebClient}, Shows msgs self →
      Shows (msgs ++ reached responses) (self.pollMessages newContactId decrypts responses) := by
  induction responses with
  | nil =>
    intro msgs self h
    show Shows (msgs ++ []) self
    rw [List.append_nil]
    exact h
  | cons response rest ih =>
    intro msgs self h
    show Shows (msgs ++ (_ ++ reached rest)) _
    rw [← List.append_assoc]
    exact ih (fun r hr => hdecrypts r (List.mem_cons_of_mem _ hr))
      (h.receiveMessages hfresh response (hdecrypts response List.mem_cons_self))

/-- A message is shown once when exactly one of those that come first is the same. -/
theorem Shows.showsOnce_iff (h : Shows msgs self) :
    self.ShowsOnce msg ↔ ∃! m, IsFirst msgs m ∧ m.SameMessage msg := by
  constructor
  · rintro ⟨c, hc, hcount⟩
    have hone := hcount c.id
    rw [if_pos rfl] at hone
    obtain ⟨e, he, hshows⟩ := List.countP_pos_iff.mp (hone ▸ Nat.one_pos)
    obtain ⟨m, hm, rfl, -⟩ := h.received c.id e he (ShownMessage.shows_iff.mp hshows).1
    have hsame := PollMessage.shown_shows.mp hshows
    refine ⟨m, ⟨hm, hsame⟩, ?_⟩
    rintro m' ⟨hm', hsame'⟩
    -- Its entry is in the same conversation.
    obtain ⟨c', hc', hshown'⟩ := h.shown m' hm'
    rw [hsame'.1, hc] at hc'
    obtain rfl := Option.some.inj hc'
    have heq := eq_of_countP_eq_one hone hshown' he (PollMessage.shown_shows.mpr hsame') hshows
    exact hm'.eq hm (hsame'.1.trans hsame.1.symm)
      (Nat.eq_of_mul_eq_mul_right (by omega : 0 < 1000) (congrArg ShownMessage.timestamp heq))
  · rintro ⟨m, ⟨hm, hsame⟩, hunique⟩
    obtain ⟨c, hc, hshown⟩ := h.shown m hm
    have hentry : ∀ k, ∀ e ∈ self.conversation k, e.shows msg = true → e = m.shown ∧ k = c.id := by
      intro k e he hshows
      obtain ⟨m', hm', rfl, c', hc', hid⟩ := h.received k e he (ShownMessage.shows_iff.mp hshows).1
      obtain rfl := hunique m' ⟨hm', PollMessage.shown_shows.mp hshows⟩
      rw [hc] at hc'
      obtain rfl := Option.some.inj hc'
      exact ⟨rfl, hid.symm⟩
    refine ⟨c, hsame.1 ▸ hc, fun k => ?_⟩
    split
    · rename_i hk
      subst hk
      refine Nat.le_antisymm (countP_le_one (h.times c.id) ?_) ?_
      · intro e he e' he' hshows hshows' hdiffer
        refine hdiffer (ShownMessage.shows_iff.mp hshows).1 (ShownMessage.shows_iff.mp hshows').1 ?_
        rw [(hentry _ e he hshows).1, (hentry _ e' he' hshows').1]
      · exact List.countP_pos_iff.mpr ⟨m.shown, hshown, PollMessage.shown_shows.mpr hsame⟩
    · rename_i hk
      exact List.countP_eq_zero.mpr fun e he hshows => hk (hentry k e he hshows).2

end WebClient

open WebClient

/-- From any responses the web client shows every delivered message exactly once if and only if each
of them is the same as exactly one message that comes first. When all times can be spelled and no
message is delivered with two times, that is the case if and only if the times identify the messages
that are delivered. -/
theorem shown_once_iff (newContactId : List Contact → String)
    (decrypts : String → List UInt8 → List UInt8 → Bool)
    (hfresh : ∀ contacts, ∀ c ∈ contacts, c.id ≠ newContactId contacts) (client : WebClient)
    (hids : (client.contacts.map Contact.id).Nodup)
    (hthem : ∀ k, ∀ e ∈ client.conversation k, e.sender ≠ .them)
    (responses : List (List PollMessage))
    (hdecrypts : ∀ response ∈ responses, ∀ m ∈ response,
      decrypts m.from m.ciphertext m.nonce = true) :
    ((∀ m ∈ responses.flatten, (client.pollMessages newContactId decrypts responses).ShowsOnce m) ↔
        FirstsIdentify responses) ∧
      ((∀ m ∈ responses.flatten, (toISOString m.timestamp).isSome) →
        (∀ m ∈ responses.flatten, ∀ m' ∈ responses.flatten, m.SameMessage m' →
          m.timestamp = m'.timestamp) →
        (FirstsIdentify responses ↔ TimesIdentify responses.flatten)) := by
  have hshows := (shows_nil hids hthem).pollMessages hfresh responses hdecrypts
  rw [List.nil_append] at hshows
  refine ⟨?_, fun hvalid honce => firstsIdentify_iff hvalid honce⟩
  exact forall₂_congr fun msg _ => hshows.showsOnce_iff

/-! ### One sender -/

/-- An id that is longer than those of all contacts. -/
def longerContactId (contacts : List Contact) : String :=
  String.ofList ("contact_1700000000000_0.5".toList ++ contacts.flatMap fun c => c.id.toList)

/-- The id is longer than every id that is there. -/
theorem longerContactId_fresh (contacts : List Contact) :
    ∀ c ∈ contacts, c.id ≠ longerContactId contacts := by
  have hpos : 0 < "contact_1700000000000_0.5".toList.length := by decide
  unfold longerContactId
  generalize "contact_1700000000000_0.5".toList = start at hpos
  intro c hc heq
  have hmem : c.id.toList ∈ contacts.map fun c => c.id.toList := List.mem_map.mpr ⟨c, hc, rfl⟩
  have hle := (List.sublist_flatten_of_mem hmem).length_le
  have hlength := congrArg (fun s : String => s.toList.length) heq
  simp only [String.toList_ofList, List.length_append, List.flatMap_def] at hlength
  omega

/-- A client without contacts. -/
def newClient : WebClient := ⟨[], fun _ => none⟩

/-- A message of a sender. -/
def firstMessage : PollMessage := ⟨"02aa", [1], [1], 1700000000⟩

/-- Another message, which the sender has sent in the same second. -/
def secondMessage : PollMessage := ⟨"02aa", [2], [2], 1700000000⟩

/-- A message of another sender in that second. -/
def otherMessage : PollMessage := ⟨"03bb", [1], [1], 1700000000⟩

/-- The new client after two polls, of which the second one repeats the message of the first. -/
def polledTwice : WebClient :=
  newClient.pollMessages longerContactId (fun _ _ _ => true)
    [[firstMessage], [firstMessage, otherMessage]]

/-- `shown_once_iff` when the first message is polled twice, and then one of another sender. -/
theorem shown_once_iff_first :
    polledTwice.ShowsOnce firstMessage ∧ polledTwice.ShowsOnce otherMessage := by
  have hshown := shown_once_iff longerContactId (fun _ _ _ => true) longerContactId_fresh newClient
    List.nodup_nil (fun _ _ he => absurd he List.not_mem_nil)
    [[firstMessage], [firstMessage, otherMessage]] (fun _ _ _ _ => rfl)
  have hall := hshown.1.mpr ((hshown.2 (by decide) ?_).mpr ?_)
  · exact ⟨hall firstMessage List.mem_cons_self,
      hall otherMessage (List.mem_of_mem_getLast? rfl)⟩
  · unfold PollMessage.SameMessage
    decide
  · unfold TimesIdentify PollMessage.SameMessage
    decide

/-- A client does not show every message: the second one of a sender in the same second is lost. -/
theorem not_shown_once :
    ¬∀ (newContactId : List Contact → String) (decrypts : String → List UInt8 → List UInt8 → Bool)
      (client : WebClient) (mailbox : List PollMessage) (responses : List (List PollMessage)),
      (∀ contacts, ∀ c ∈ contacts, c.id ≠ newContactId contacts) →
      (client.contacts.map Contact.id).Nodup →
      (∀ k, ∀ e ∈ client.conversation k, e.sender ≠ .them) →
      (∀ m ∈ mailbox, decrypts m.from m.ciphertext m.nonce = true) →
      (∀ response ∈ responses, Drawn mailbox response) →
      ∀ m ∈ responses.flatten,
        (client.pollMessages newContactId decrypts responses).ShowsOnce m := by
  intro hall
  have hdrawn : Drawn [firstMessage, secondMessage] [firstMessage, secondMessage] :=
    ⟨[0, 1], by decide, rfl⟩
  have hshown := hall longerContactId (fun _ _ _ => true) newClient [firstMessage, secondMessage]
    [[firstMessage, secondMessage]] longerContactId_fresh List.nodup_nil
    (fun _ _ he => absurd he List.not_mem_nil) (fun _ _ => rfl)
    (fun r hr => List.mem_singleton.mp hr ▸ hdrawn) secondMessage (by simp)
  have hnew : Shows [] newClient :=
    shows_nil List.nodup_nil fun _ _ he => absurd he List.not_mem_nil
  have hshows : Shows ([] ++ reached [[firstMessage, secondMessage]])
      (newClient.pollMessages longerContactId (fun _ _ _ => true)
        [[firstMessage, secondMessage]]) :=
    hnew.pollMessages longerContactId_fresh _ fun _ _ _ _ => rfl
  obtain ⟨m, ⟨hm, hsame⟩, -⟩ := hshows.showsOnce_iff.mp hshown
  -- The second message is the only one with its content, and it does not come first.
  have hfirst : m = firstMessage := by
    have hreached : reached [[firstMessage, secondMessage]] = [firstMessage] ++ [secondMessage] :=
      reached_eq_flatten (by decide)
    rw [hreached, List.nil_append, isFirst_append_singleton] at hm
    rcases hm with hm | ⟨-, hnone⟩
    · exact List.mem_singleton.mp hm.mem
    · exact absurd rfl (hnone firstMessage List.mem_cons_self rfl)
  rw [hfirst] at hsame
  exact absurd hsame.2.1 (by decide)

end TaceChat
