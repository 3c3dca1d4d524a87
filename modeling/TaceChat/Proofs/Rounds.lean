import TaceChat.Proofs.Appends

/-!
# The parts of a maintenance round

`stabilize` is three accesses to other nodes: it reads the successor's predecessor, notifies the
successor, and walks along the successors for the successor list. Each part has its
specification here, and `returns_stabilize_answered` puts the first one in front of the others.
`stabilize_outside` is the effect of a whole round on the pointers, as the function
`notified` after the function `answered`.
-/

set_option autoImplicit false

namespace TaceChat

namespace ChordNode

/-- The node after its successor has reported the predecessor `x`. -/
def afterAnswer (self : ChordNode) (x : Option NodeInfo) : ChordNode :=
  match x with
  | none => self
  | some x => self.adoptSuccessor self.successor x

/-- An answer does not change who the node is. -/
@[simp] theorem afterAnswer_info (n : ChordNode) (x : Option NodeInfo) :
    (n.afterAnswer x).info = n.info := by
  cases x with
  | none => rfl
  | some x => simp only [afterAnswer, adoptSuccessor]; split <;> rfl

/-- A reported predecessor is adopted when it lies between the node and its successor. -/
theorem afterAnswer_adopt {n : ChordNode} {x : NodeInfo}
    (h : isBetween x.id n.info.id n.successor.id = true) :
    n.afterAnswer (some x) = { n with successor := x } := if_pos h

/-- A node outside the arc to the successor is not adopted. -/
theorem afterAnswer_keep {n : ChordNode} {x : NodeInfo}
    (h : isBetween x.id n.info.id n.successor.id ≠ true) : n.afterAnswer (some x) = n := if_neg h

/-- An accepted notification. -/
theorem notifyUpdate_accept {n : ChordNode} {nPrime : NodeInfo}
    (h : ∀ p, n.predecessor = some p → isBetween nPrime.id p.id n.info.id = true) :
    n.notifyUpdate nPrime = some { n with
      predecessor := some nPrime
      successor := if n.successor.id = n.info.id then nPrime else n.successor } := by
  unfold notifyUpdate
  cases hp : n.predecessor with
  | none => rfl
  | some p => exact if_pos (h p hp)

/-- A refused notification: the notifier does not lie between the predecessor and the node. -/
theorem notifyUpdate_refuse {n : ChordNode} {nPrime p : NodeInfo} (hp : n.predecessor = some p)
    (h : isBetween nPrime.id p.id n.info.id ≠ true) : n.notifyUpdate nPrime = none := by
  unfold notifyUpdate
  rw [hp]
  exact if_neg h

/-- A notification changes the predecessor and perhaps the successor, nothing else. -/
theorem notifyUpdate_frame {n n' : ChordNode} {nPrime : NodeInfo}
    (h : n.notifyUpdate nPrime = some n') :
    n' = { n with predecessor := some nPrime, successor := n'.successor } ∧
      (n'.successor = nPrime ∨ n'.successor = n.successor) := by
  unfold notifyUpdate at h
  simp only [Option.ite_none_right_eq_some, Option.some.injEq] at h
  obtain ⟨-, rfl⟩ := h
  refine ⟨rfl, ?_⟩
  by_cases hs : n.successor.id = n.info.id <;> simp [hs]

end ChordNode

namespace Network

variable {φ : Type} {medium : Medium φ} {depth : ℕ} {a : String} {net net' : Network φ}

/-- The same write at the same address. -/
theorem SameNodes.setNode (h : SameNodes net net') (n : ChordNode) :
    SameNodes (net.setNode a n) (net'.setNode a n) :=
  ⟨by simp only [Network.setNode, h.1], h.2⟩

/-! ### Networks with the same pointers -/

/-- The networks agree in the infos, successors and predecessors of all nodes. -/
structure SamePointers (net net' : Network φ) : Prop where
  listening : net'.listening = net.listening
  info : ∀ a, (net'.node a).info = (net.node a).info
  successor : ∀ a, (net'.node a).successor = (net.node a).successor
  predecessor : ∀ a, (net'.node a).predecessor = (net.node a).predecessor

/-- A network has its own pointers. -/
theorem SamePointers.refl (net : Network φ) : SamePointers net net :=
  ⟨rfl, fun _ => rfl, fun _ => rfl, fun _ => rfl⟩

/-- One change after another. -/
theorem SamePointers.trans {net'' : Network φ} (h : SamePointers net net')
    (h' : SamePointers net' net'') : SamePointers net net'' where
  listening := h'.listening.trans h.listening
  info a := (h'.info a).trans (h.info a)
  successor a := (h'.successor a).trans (h.successor a)
  predecessor a := (h'.predecessor a).trans (h.predecessor a)

/-- The same nodes have the same pointers. -/
theorem SameNodes.samePointers (h : SameNodes net net') : SamePointers net net' := by
  refine ⟨h.2, fun b => ?_, fun b => ?_, fun b => ?_⟩ <;> rw [h.1]

/-- Data is no pointer. -/
theorem ChangesData.samePointers {P : NodeId → Prop} (h : ChangesData P net net') :
    SamePointers net net' := by
  refine ⟨h.1, fun b => ?_, fun b => ?_, fun b => ?_⟩ <;>
  · obtain ⟨d, hd, -⟩ := h.2 b
    rw [hd]

/-- The networks agree in the pointers, and in the data under keys that do not satisfy `P`. -/
structure SameOutside (P : NodeId → Prop) (net net' : Network φ) : Prop extends
    SamePointers net net' where
  data : ∀ a k, ¬ P k → (net'.node a).data.lookup k = (net.node a).data.lookup k

/-- One change after another. -/
theorem SameOutside.trans {P : NodeId → Prop} {net'' : Network φ} (h : SameOutside P net net')
    (h' : SameOutside P net' net'') : SameOutside P net net'' :=
  ⟨h.toSamePointers.trans h'.toSamePointers,
    fun a k hk => (h'.data a k hk).trans (h.data a k hk)⟩

/-- The same nodes hold the same data. -/
theorem SameNodes.sameOutside (P : NodeId → Prop) (h : SameNodes net net') :
    SameOutside P net net' :=
  ⟨h.samePointers, fun _ _ _ => by rw [h.1]⟩

/-- The data outside `P` is the same. -/
theorem ChangesData.sameOutside {P : NodeId → Prop} (h : ChangesData P net net') :
    SameOutside P net net' := by
  refine ⟨h.samePointers, fun a k hk => ?_⟩
  obtain ⟨d, hd, hlookup⟩ := h.2 a
  rw [hd]
  exact hlookup k hk

/-- A write to one node that keeps its pointers. -/
theorem SamePointers.setNode {n : ChordNode} (hinfo : n.info = (net.node a).info)
    (hsucc : n.successor = (net.node a).successor)
    (hpred : n.predecessor = (net.node a).predecessor) :
    SamePointers net (net.setNode a n) := by
  refine ⟨rfl, fun b => ?_, fun b => ?_, fun b => ?_⟩ <;>
  · rcases eq_or_ne b a with rfl | hb
    · rw [setNode_node_self]
      assumption
    · rw [setNode_node_of_ne hb]

/-! ### The successor list -/

/-- The walk along the successors reads, and ends after as many entries as it may take. From a
known node it finds known nodes. -/
theorem walkSuccessors_finds {K : NodeInfo → Prop} (k : ℕ) :
    ∀ {net : Network φ} {current : NodeInfo}, Closed K net → K current →
      Returns (walkSuccessors (env medium (depth + 1) a) k current) net
        fun r net' => SameNodes net net' ∧ r.length ≤ k ∧ ∀ x ∈ r, K x := by
  induction k with
  | zero => exact fun {net} _ _ _ => returns_pure.mpr ⟨.refl net, Nat.le_refl _, by simp⟩
  | succ k ih =>
    intro net current hK hcurrent
    have hnil : ∀ {net' : Network φ}, SameNodes net net' →
        Returns (pure [] : NodeM (Network φ) (List NodeInfo)) net' fun r net' =>
          SameNodes net net' ∧ r.length ≤ k + 1 ∧ ∀ x ∈ r, K x :=
      fun h => returns_pure.mpr ⟨h, Nat.zero_le _, by simp⟩
    simp only [walkSuccessors, returns_bind, returns_safeLock, env_node, env_callNode]
    refine returns_ite.mpr ⟨fun _ => hnil (.refl net), fun _ => returns_bind.mpr ?_⟩
    refine (call_read rfl).mono ?_
    rintro r net₁ ⟨h₁, rfl | rfl⟩
    · exact hnil h₁
    · refine returns_ite.mpr ⟨fun _ => hnil h₁, fun _ => ?_⟩
      have hnext := (hK current hcurrent).successor
      refine (ih (hK.sameNodes h₁) hnext).bind ?_
      rintro rest net₂ ⟨h₂, hlen, hrest⟩
      refine returns_pure.mpr ⟨h₁.trans h₂, Nat.succ_le_succ hlen, fun x hx => ?_⟩
      rcases List.mem_cons.mp hx with rfl | hx
      · exact hnext
      · exact hrest x hx

/-- The network after a node has replaced its successor list. -/
def withList (a : String) (list : List NodeInfo) (net : Network φ) : Network φ :=
  net.setNode a { net.node a with successorList := list }

/-- The list is no pointer that the ring depends on. -/
theorem SamePointers.withList (net : Network φ) (a : String) (list : List NodeInfo) :
    SamePointers net (net.withList a list) :=
  .setNode rfl rfl rfl

/-- The list is no data. -/
theorem SameOutside.withList (P : NodeId → Prop) (net : Network φ) (a : String)
    (list : List NodeInfo) : SameOutside P net (net.withList a list) := by
  refine ⟨.withList net a list, fun b k _ => ?_⟩
  rcases eq_or_ne b a with rfl | hb
  · rw [Network.withList, setNode_node_self]
  · rw [Network.withList, setNode_node_of_ne hb]

/-- A new successor list starts with the successor, and holds known nodes. -/
theorem updateSuccessorList_finds {K : NodeInfo → Prop} (hK : Closed K net)
    (ha : Reports K (net.node a)) :
    Returns (updateSuccessorList (env medium (depth + 1) a)) net fun _ net' =>
      ∃ rest, rest.length < successorListSize ∧ (∀ x ∈ rest, K x) ∧
        SameNodes (net.withList a (fillSuccessorList (net.node a).successor rest)) net' := by
  simp only [updateSuccessorList, returns_bind, returns_safeLock, env_node]
  refine (walkSuccessors_finds _ hK ha.successor).mono ?_
  rintro rest net' ⟨hs, hlen, hrest⟩
  simp only [returns_safeUpdate, env_node, env_setNode]
  refine ⟨rest, Nat.lt_of_le_of_lt hlen (by decide), hrest, ?_⟩
  rw [hs.1]
  exact hs.setNode _

/-- `update_successor_list` fills the list from the successor and a walk that is shorter than the
list. -/
theorem updateSuccessorList_returns (net : Network φ) :
    Returns (updateSuccessorList (env medium (depth + 1) a)) net fun _ net' =>
      ∃ rest, rest.length < successorListSize ∧
        SameNodes (net.withList a (fillSuccessorList (net.node a).successor rest)) net' :=
  (updateSuccessorList_finds (.any net) (.any _)).mono fun _ _ ⟨rest, hlen, _, hs⟩ =>
    ⟨rest, hlen, hs⟩

/-! ### The notification -/

/-- A refused notification changes nothing. -/
theorem returns_notify_refused {nPrime : NodeInfo} {Q : Unit → Network φ → Prop}
    (h : nPrime.id = (net.node a).info.id ∨ (net.node a).notifyUpdate nPrime = none) :
    Returns (notify (env medium depth a) nPrime) net Q ↔ Q () net := by
  simp only [notify, returns_bind, returns_safeLock, returns_ite, env_node]
  by_cases hself : nPrime.id = (net.node a).info.id
  · simp only [hself, true_implies, not_true, false_implies, and_true, returns_pure]
  · simp only [hself, h.resolve_left hself, false_implies, not_false_iff, true_implies, true_and,
      returns_pure]

/-- An accepted notification updates the node and then pushes the data of its range. -/
theorem returns_notify_accepted {nPrime : NodeInfo} {updated : ChordNode}
    {Q : Unit → Network φ → Prop} (hself : nPrime.id ≠ (net.node a).info.id)
    (h : (net.node a).notifyUpdate nPrime = some updated) :
    Returns (notify (env medium depth a) nPrime) net Q ↔
      Returns (forEachValue (updated.getDataRange nPrime.id (net.node a).info.id) fun key value =>
        discard <| call medium depth nPrime.address (.store key value))
        (net.setNode a updated) Q := by
  simp only [notify, returns_bind, returns_safeLock, returns_ite, env_node, hself, h,
    false_implies, not_false_iff, true_implies, true_and, returns_safeUpdate, env_setNode,
    env_callNode]

/-- The keys that `notify` and `join` transfer: those of the range from the new node to its
successor. -/
def Transferred (start «end» k : NodeId) : Prop := isBetween k start «end» = true ∨ k = «end»

/-- What is sent lies in the range. -/
theorem transferred_of_mem {n : ChordNode} {start «end» : NodeId} {e : NodeId × List Value}
    (h : e ∈ n.getDataRange start «end») : Transferred start «end» e.1 := by
  simp only [ChordNode.getDataRange, List.mem_map, List.mem_filter, Bool.or_eq_true,
    decide_eq_true_eq] at h
  obtain ⟨entry, ⟨-, hin⟩, rfl⟩ := h
  exact hin

/-- Under the reliable medium the data of an accepted notification is pushed, and the receivers
change their data under the keys of the range only. -/
theorem notify_accepted_changesData {net : Network Unit} {nPrime : NodeInfo}
    {updated : ChordNode} (hself : nPrime.id ≠ (net.node a).info.id)
    (h : (net.node a).notifyUpdate nPrime = some updated) :
    Returns (notify (env reliable (depth + 2) a) nPrime) net fun _ net' =>
      ChangesData (Transferred nPrime.id (net.node a).info.id) (net.setNode a updated) net' := by
  rw [returns_notify_accepted hself h]
  refine forEachValue_changesData (fun e he => transferred_of_mem he) fun key value net₁ hkey => ?_
  rw [returns_discard]
  exact call_store_changesData hkey _ value

/-- The network after the successor of a node has handled its notification, without the data
that an accepted notification moves. -/
def notified (a : String) (net : Network φ) : Network φ :=
  let nPrime := (net.node a).info
  let s := (net.node a).successor.address
  if nPrime.id = (net.node s).info.id then net
  else match (net.node s).notifyUpdate nPrime with
    | none => net
    | some updated => net.setNode s updated

/-- A refused notification. -/
theorem notified_refused
    (h : (net.node a).info.id = (net.node (net.node a).successor.address).info.id ∨
      (net.node (net.node a).successor.address).notifyUpdate (net.node a).info = none) :
    net.notified a = net := by
  simp only [notified]
  rcases h with h | h
  · rw [if_pos h]
  · rw [h]
    split <;> rfl

/-- An accepted notification. -/
theorem notified_accepted {updated : ChordNode}
    (hself : (net.node a).info.id ≠ (net.node (net.node a).successor.address).info.id)
    (h : (net.node (net.node a).successor.address).notifyUpdate (net.node a).info
      = some updated) :
    net.notified a = net.setNode (net.node a).successor.address updated := by
  simp only [notified]
  rw [if_neg hself, h]

/-- A notification changes no info. -/
theorem notified_info (a : String) (net : Network φ) :
    (net.notified a).listening = net.listening ∧
      ∀ b, ((net.notified a).node b).info = (net.node b).info := by
  by_cases hself : (net.node a).info.id = (net.node (net.node a).successor.address).info.id
  · rw [notified_refused (Or.inl hself)]
    exact ⟨rfl, fun _ => rfl⟩
  · cases h : (net.node (net.node a).successor.address).notifyUpdate (net.node a).info with
    | none =>
      rw [notified_refused (Or.inr h)]
      exact ⟨rfl, fun _ => rfl⟩
    | some updated =>
      rw [notified_accepted hself h]
      refine ⟨rfl, fun b => ?_⟩
      rcases eq_or_ne b (net.node a).successor.address with rfl | hb
      · rw [setNode_node_self, (ChordNode.notifyUpdate_frame h).1]
      · rw [setNode_node_of_ne hb]

/-- A notification leaves the notifier alone. -/
theorem notified_node_self (a : String) (net : Network φ) :
    (net.notified a).node a = net.node a := by
  by_cases hself : (net.node a).info.id = (net.node (net.node a).successor.address).info.id
  · rw [notified_refused (Or.inl hself)]
  · cases h : (net.node (net.node a).successor.address).notifyUpdate (net.node a).info with
    | none => rw [notified_refused (Or.inr h)]
    | some updated =>
      rw [notified_accepted hself h]
      refine setNode_node_of_ne fun heq => hself ?_
      rw [← heq]

/-- The keys that a notification can move. -/
def Moved (a : String) (net : Network φ) : NodeId → Prop :=
  Transferred (net.node a).info.id (net.node (net.node a).successor.address).info.id

/-- The call of the notification under the reliable medium. -/
theorem call_notify_changesData {net : Network Unit}
    (hl : net.listening (net.node a).successor.address = true) :
    Returns (call reliable (depth + 3) (net.node a).successor.address
      (.notify (net.node a).info.id (net.node a).info.address (net.node a).info.apiAddress)) net
      fun _ net' => ChangesData (net.Moved a) (net.notified a) net' := by
  rw [returns_call_reliable hl]
  simp only [handleConnection.eq_def, returns_bind, returns_pure]
  by_cases hself : (net.node a).info.id = (net.node (net.node a).successor.address).info.id
  · rw [returns_notify_refused (Or.inl hself), notified_refused (Or.inl hself)]
    exact .refl net
  · cases h : (net.node (net.node a).successor.address).notifyUpdate (net.node a).info with
    | none =>
      rw [returns_notify_refused (Or.inr h), notified_refused (Or.inr h)]
      exact .refl net
    | some updated =>
      rw [notified_accepted hself h]
      exact notify_accepted_changesData hself h

/-! ### The round -/

/-- A node that is its own successor only clears its predecessor. -/
theorem returns_stabilize_alone {Q : Unit → Network φ → Prop}
    (h : (net.node a).info.id = (net.node a).successor.id) :
    Returns (stabilize (env medium depth a)) net Q ↔
      Q () (net.setNode a { net.node a with predecessor := none }) := by
  simp only [stabilize, returns_bind, returns_safeLock, returns_ite, env_node, h, true_implies,
    not_true, false_implies, and_true, returns_safeUpdate, env_setNode]

/-- The network after the successor of a node has answered it. -/
def answered (a : String) (net : Network φ) : Network φ :=
  net.setNode a
    ((net.node a).afterAnswer (net.node (net.node a).successor.address).predecessor)

/-- An answer does not change who listens. -/
@[simp] theorem answered_listening : (net.answered a).listening = net.listening := rfl

/-- An answer does not change who the nodes are. -/
@[simp] theorem answered_info (b : String) :
    ((net.answered a).node b).info = (net.node b).info := by
  unfold answered
  rcases eq_or_ne b a with rfl | hb
  · rw [setNode_node_self, ChordNode.afterAnswer_info]
  · rw [setNode_node_of_ne hb]

/-- What `stabilize` does once its successor has answered. -/
def notifyAndRefresh (medium : Medium φ) (depth : ℕ) (a : String) (n : ChordNode) :
    NodeM (Network φ) Unit := do
  discard <| call medium depth n.successor.address
    (.notify n.info.id n.info.address n.info.apiAddress)
  updateSuccessorList (env medium depth a)

/-- A round with a successor that answers. -/
theorem returns_stabilize_answered {net : Network Unit} {Q : Unit → Network Unit → Prop}
    (hne : (net.node a).info.id ≠ (net.node a).successor.id)
    (hl : net.listening (net.node a).successor.address = true) :
    Returns (stabilize (env reliable (depth + 1) a)) net Q ↔
      Returns (notifyAndRefresh reliable (depth + 1) a ((net.answered a).node a))
        (net.answered a) Q := by
  simp only [stabilize, returns_bind, returns_safeLock, returns_ite, env_node, env_callNode, hne,
    false_implies, not_false_iff, true_implies, true_and]
  rw [call_read_answered rfl rfl hl]
  cases hp : (net.node (net.node a).successor.address).predecessor with
  | none =>
    simp [notifySuccessor, notifyAndRefresh, answered, hp, ChordNode.afterAnswer, reliable]
  | some x =>
    simp [notifySuccessor, notifyAndRefresh, answered, hp, ChordNode.afterAnswer, reliable]

/-- The pointers after a round whose calls are answered, and the data that it cannot move. -/
theorem stabilize_outside {net : Network Unit}
    (hne : (net.node a).info.id ≠ (net.node a).successor.id)
    (hl : net.listening (net.node a).successor.address = true)
    (hl' : net.listening ((net.answered a).node a).successor.address = true) :
    Returns (stabilize (env reliable (depth + 3) a)) net fun _ net' =>
      SameOutside ((net.answered a).Moved a) ((net.answered a).notified a) net' := by
  rw [returns_stabilize_answered hne hl]
  simp only [notifyAndRefresh, returns_bind, returns_discard]
  have hl₁ : (net.answered a).listening ((net.answered a).node a).successor.address = true := hl'
  refine (call_notify_changesData hl₁).mono ?_
  rintro - net₁ h₁
  refine (updateSuccessorList_returns net₁).mono ?_
  rintro - net₂ ⟨rest, -, h₂⟩
  exact h₁.sameOutside.trans ((SameOutside.withList _ _ _ _).trans (h₂.sameOutside _))

end Network

end TaceChat
