import TaceChat.Proofs.Copies
import TaceChat.Proofs.IdNetwork

/-!
# Taking over from a failed predecessor

A node that finds its predecessor unreachable asks other nodes for replicas and appends what they
send. The predecessor is cleared before the range to ask for is computed, so the range starts at
the failed predecessor and not at that node's own predecessor: the node asks for the keys that it
owned already.

`contacted` lists the nodes that answer, for any medium. `checkPredecessor_recovered` says what the
node holds afterwards: under a key of the requested range, the values of every contacted node are
appended, and nothing is appended under another key. `checkPredecessor_takesOver_iff` reads off
when that is a take-over of the failed predecessor's keys.
-/

set_option autoImplicit false

namespace TaceChat

/-- The keys that a recovery asks for: those of (start, end], and `end` itself. -/
def inRange (start «end» k : NodeId) : Bool := isBetween k start «end» || k = «end»

/-- The values that a list of entries has under the key. -/
def valuesUnder (k : NodeId) (data : List (NodeId × List Value)) : List Value :=
  data.flatMap fun e => if e.1 = k then e.2 else []

/-- The first entry comes first. -/
theorem valuesUnder_cons (k : NodeId) (e : NodeId × List Value)
    (data : List (NodeId × List Value)) :
    valuesUnder k (e :: data) = (if e.1 = k then e.2 else []) ++ valuesUnder k data :=
  List.flatMap_cons

namespace ChordNode

variable {k : NodeId}

/-- A recovery appends the values that it has got under each key. -/
theorem valuesAt_recover (replicas : List (NodeId × List Value)) : ∀ n : ChordNode,
    (n.recover replicas).valuesAt k = n.valuesAt k ++ valuesUnder k replicas := by
  induction replicas with
  | nil => exact fun n => (List.append_nil _).symm
  | cons e replicas ih =>
    intro n
    rw [recover, List.foldl_cons, ← recover, ih, valuesUnder_cons, ← List.append_assoc]
    congr 1
    rcases eq_or_ne e.1 k with rfl | hk
    · rw [valuesAt_extendKey, if_pos rfl]
    · rw [valuesAt_extendKey_of_ne hk.symm, if_neg hk, List.append_nil]

/-- In the selected entries of a map, a key has the values of the map, if it is selected. -/
theorem valuesUnder_filter (p : NodeId → Bool) (l : List (Sigma fun _ : NodeId => List Value))
    (h : l.NodupKeys) :
    valuesUnder k ((l.filter fun e => p e.1).map fun e => (e.1, e.2))
      = if p k then (l.dlookup k).getD [] else [] := by
  induction l with
  | nil => simp [valuesUnder]
  | cons e l ih =>
    obtain ⟨key, values⟩ := e
    rw [List.nodupKeys_cons] at h
    have ih := ih h.2
    rcases eq_or_ne key k with rfl | hk
    · -- The key has no second entry.
      rw [List.dlookup_eq_none.mpr h.1] at ih
      rw [List.dlookup_cons_eq, List.filter_cons]
      cases hp : p key with
      | false => simpa [hp] using ih
      | true => simpa [hp, valuesUnder_cons] using ih
    · -- The entry is of another key, so it adds nothing, selected or not.
      rw [List.dlookup_cons_ne _ _ hk.symm, List.filter_cons]
      cases p key with
      | false => simpa using ih
      | true => simpa [valuesUnder_cons, hk] using ih

/-- What a recovery gets from a node under a key. -/
theorem valuesUnder_handleRequestReplicas (n : ChordNode) (start «end» : NodeId) :
    valuesUnder k (n.handleRequestReplicas start «end»)
      = if inRange start «end» k then n.valuesAt k else [] :=
  valuesUnder_filter (inRange start «end») n.data.entries n.data.nodupKeys

end ChordNode

namespace Network

variable {φ : Type}

/-- Whether a call is answered. -/
def answers (medium : Medium φ) (net : Network φ) (address : String) (m : DhtMessage) : Bool :=
  (medium net.medium address m).1 = .answered && net.listening address

/-- The nodes of the list that answer when they are asked in turn. Each call moves the medium
on. -/
def contacted (medium : Medium φ) (m : DhtMessage) : Network φ → List NodeInfo → List NodeInfo
  | _, [] => []
  | net, node :: rest =>
    let net' := { net with medium := (medium net.medium node.address m).2 }
    if net.answers medium node.address m then node :: contacted medium m net' rest
    else contacted medium m net' rest

variable {medium : Medium φ} {depth : ℕ} {a : String} {net net' : Network φ}
  {start «end» : NodeId}

/-- Who answers depends on the medium and on who listens, not on the nodes. -/
theorem contacted_setNode (m : DhtMessage) (n : ChordNode) (l : List NodeInfo) :
    ∀ net : Network φ, contacted medium m (net.setNode a n) l = contacted medium m net l := by
  induction l with
  | nil => exact fun _ => rfl
  | cons x l ih =>
    intro net
    -- The medium moves on in the same way in both networks.
    have hrest := ih { net with medium := (medium net.medium x.address m).2 }
    unfold contacted
    dsimp only
    rw [← hrest]
    rfl

/-- A reading call that is not answered. -/
theorem returns_call_unanswered {address : String} {m r : DhtMessage}
    {Q : Option DhtMessage → Network φ → Prop} (h : readReply (net.node address) m = some r)
    (hno : net.answers medium address m = false) :
    Returns (call medium (depth + 1) address m) net Q ↔
      Q none { net with medium := (medium net.medium address m).2 } := by
  cases hl : net.listening address with
  | false => exact returns_call_lost (Or.inr hl)
  | true =>
    cases hd : (medium net.medium address m).1 with
    | notDelivered => exact returns_call_lost (Or.inl hd)
    | replyLost =>
      -- The handler has run, but it only reads.
      rw [returns_call_replyLost hd hl]
      exact returns_handleConnection_read h
    | answered =>
      rw [answers, hd, hl] at hno
      cases hno

/-- What a recovery leaves at the node `a`: under a requested key, the values of the contacted
nodes are appended, and nothing under another key. -/
def Recovered (a : String) (start «end» : NodeId) (contacts : List NodeInfo)
    (net net' : Network φ) : Prop :=
  ∀ k, ∃ added, (net'.node a).valuesAt k = (net.node a).valuesAt k ++ added ∧
    ∀ v, v ∈ added ↔ inRange start «end» k = true ∧
      ∃ r ∈ contacts, v ∈ (net.node r.address).valuesAt k

/-- Nothing is recovered from nobody. -/
theorem Recovered.refl : Recovered a start «end» [] net net := by
  intro k
  refine ⟨[], (List.append_nil _).symm, fun v => ?_⟩
  simp

/-- One more node that answers, asked first. -/
theorem Recovered.cons {x : NodeInfo} {contacts : List NodeInfo}
    (h : Recovered a start «end» contacts (net.setNode a ((net.node a).recover
      ((net.node x.address).handleRequestReplicas start «end»))) net') :
    Recovered a start «end» (x :: contacts) net net' := by
  intro k
  obtain ⟨added, hadded, hmem⟩ := h k
  rw [setNode_node_self, ChordNode.valuesAt_recover,
    ChordNode.valuesUnder_handleRequestReplicas] at hadded
  cases hk : inRange start «end» k with
  | false =>
    rw [hk, if_neg Bool.false_ne_true, List.append_nil] at hadded
    refine ⟨added, hadded, fun v => ?_⟩
    rw [hmem v, hk]
    simp only [Bool.false_eq_true, false_and]
  | true =>
    rw [hk, if_pos rfl, List.append_assoc] at hadded
    -- What is added is what the first node has sent, followed by what the others send.
    refine ⟨_, hadded, fun v => ?_⟩
    rw [List.mem_append, hmem v, hk]
    simp only [true_and, List.exists_mem_cons_iff]
    -- A node that asks itself sends back what it has got so far.
    have hself : ∀ r : NodeInfo, v ∈ ((net.setNode a ((net.node a).recover
        ((net.node x.address).handleRequestReplicas start «end»))).node r.address).valuesAt k ↔
          v ∈ (net.node r.address).valuesAt k ∨
            r.address = a ∧ v ∈ (net.node x.address).valuesAt k := by
      intro r
      rcases eq_or_ne r.address a with ha | ha
      · rw [ha, setNode_node_self, ChordNode.valuesAt_recover,
          ChordNode.valuesUnder_handleRequestReplicas, hk, if_pos rfl, List.mem_append]
        simp only [true_and]
      · rw [setNode_node_of_ne ha]
        simp only [ha, false_and, or_false]
    constructor
    · rintro (hx | ⟨r, hr, hv⟩)
      · exact Or.inl hx
      · rcases (hself r).mp hv with hv | ⟨-, hv⟩
        · exact Or.inr ⟨r, hr, hv⟩
        · exact Or.inl hv
    · rintro (hx | ⟨r, hr, hv⟩)
      · exact Or.inl hx
      · exact Or.inr ⟨r, hr, (hself r).mpr (Or.inl hv)⟩

/-- The write that clears the predecessor changes no data. -/
theorem Recovered.cleared {contacts : List NodeInfo}
    (h : Recovered a start «end» contacts
      (net.setNode a { net.node a with predecessor := none }) net') :
    Recovered a start «end» contacts net net' := by
  have hdata : ∀ b k, ((net.setNode a { net.node a with predecessor := none }).node b).valuesAt k
      = (net.node b).valuesAt k := by
    intro b k
    rcases eq_or_ne b a with rfl | hb
    · rw [setNode_node_self]
      rfl
    · rw [setNode_node_of_ne hb]
  unfold Recovered at h
  simp only [hdata] at h
  exact h

/-- A node that answers. -/
theorem returns_recoverFrom_answered {x : NodeInfo} {Q : Unit → Network φ → Prop}
    (hne : x.id ≠ (net.node a).info.id)
    (hyes : net.answers medium x.address (.requestReplicas start «end») = true) :
    Returns (recoverFrom (env medium (depth + 1) a) start «end» x) net Q ↔
      Q () (Network.setNode a ((net.node a).recover
          ((net.node x.address).handleRequestReplicas start «end»))
        { net with
          medium := (medium net.medium x.address (.requestReplicas start «end»)).2 }) := by
  obtain ⟨hd, hl⟩ := Bool.and_eq_true_iff.mp hyes
  simp only [recoverFrom, returns_bind, returns_safeLock, returns_ite, env_node, env_callNode, hne,
    false_implies, not_false_iff, true_implies, true_and]
  rw [call_read_answered rfl (decide_eq_true_eq.mp hd) hl]
  exact returns_safeUpdate

/-- A node that does not answer. -/
theorem returns_recoverFrom_unanswered {x : NodeInfo} {Q : Unit → Network φ → Prop}
    (hne : x.id ≠ (net.node a).info.id)
    (hno : net.answers medium x.address (.requestReplicas start «end») = false) :
    Returns (recoverFrom (env medium (depth + 1) a) start «end» x) net Q ↔
      Q () { net with
        medium := (medium net.medium x.address (.requestReplicas start «end»)).2 } := by
  simp only [recoverFrom, returns_bind, returns_safeLock, returns_ite, env_node, env_callNode, hne,
    false_implies, not_false_iff, true_implies, true_and]
  rw [returns_call_unanswered rfl hno]
  exact returns_pure

/-- The loop over the nodes that are asked. -/
theorem forM_recoverFrom_recovered (l : List NodeInfo) : ∀ net : Network φ,
    (∀ x ∈ l, x.id ≠ (net.node a).info.id) →
    Returns (forM l (recoverFrom (env medium (depth + 1) a) start «end»)) net fun _ net' =>
      Recovered a start «end» (contacted medium (.requestReplicas start «end») net l) net net' := by
  induction l with
  | nil => exact fun net _ => returns_pure.mpr Recovered.refl
  | cons x l ih =>
    intro net hl
    obtain ⟨hx, hl⟩ := List.forall_mem_cons.mp hl
    rw [List.forM_cons, returns_bind, contacted]
    cases hans : net.answers medium x.address (.requestReplicas start «end») with
    | false =>
      rw [returns_recoverFrom_unanswered hx hans]
      exact ih _ hl
    | true =>
      rw [returns_recoverFrom_answered hx hans]
      -- The recovered values leave the id of the node alone, so the next nodes are still others.
      obtain ⟨d, hd⟩ := ChordNode.recover_frame
        ((net.node x.address).handleRequestReplicas start «end») (net.node a)
      refine (ih _ ?_).mono fun _ net' h => ?_
      · rw [setNode_node_self, hd]
        exact hl
      · rw [contacted_setNode] at h
        exact Recovered.cons h

/-- The nodes that a recovery contacts after the ping to the predecessor `p`. -/
def recoveryContacts (medium : Medium φ) (net : Network φ) (a : String) (p : NodeInfo) :
    List NodeInfo :=
  let n := net.node a
  contacted medium (.requestReplicas p.id n.info.id)
    { net with medium := (medium net.medium p.address .ping).2 }
    (n.getReplicaNodesForRange p.id n.info.id)

/-- A check of a predecessor that does not answer asks for the keys between the predecessor and
the node. -/
theorem checkPredecessor_recovered {p : NodeInfo} (hpred : (net.node a).predecessor = some p)
    (hno : net.answers medium p.address .ping = false) :
    Returns (checkPredecessor (env medium (depth + 1) a)) net fun _ net' =>
      Recovered a p.id (net.node a).info.id (recoveryContacts medium net a p) net net' := by
  simp only [checkPredecessor, returns_bind, returns_safeLock, env_node, hpred, env_callNode]
  rw [returns_call_unanswered rfl hno]
  simp only [reconcileDataAfterPredecessorFailure, returns_bind, returns_safeUpdate,
    returns_safeLock, env_node, env_setNode, setNode_node_self]
  -- The predecessor is gone, so the range starts at the failed one.
  show Returns (forM ((net.node a).getReplicaNodesForRange p.id (net.node a).info.id)
    (recoverFrom (env medium (depth + 1) a) p.id (net.node a).info.id)) _ _
  refine (forM_recoverFrom_recovered _ _ fun x hx => ?_).mono fun _ net' h => ?_
  · rw [setNode_node_self]
    exact of_decide_eq_true (List.mem_filter.mp hx).2
  · rw [contacted_setNode] at h
    exact Recovered.cleared h

end Network

open Network

/-- The predecessor `p` of the node does not answer its ping, and `q` is the predecessor of `p`. -/
structure PredecessorFailed {φ : Type} (medium : Medium φ) (net : Network φ) (a : String)
    (p q : NodeInfo) : Prop where
  predecessor : (net.node a).predecessor = some p
  before : (net.node p.address).predecessor = some q
  unreachable : net.answers medium p.address .ping = false

/-- The node has taken over from `p`: it has what a contacted node held under the keys of (q, p],
and no further copy of what it had under the keys that it owned already. -/
def TakesOver {φ : Type} (a : String) (p q : NodeInfo) (contacts : List NodeInfo)
    (net net' : Network φ) : Prop :=
  (∀ k, isBetween k q.id p.id = true → ∀ r ∈ contacts,
    ∀ v ∈ (net.node r.address).valuesAt k, v ∈ (net'.node a).valuesAt k) ∧
  ∀ k, isBetween k p.id (net.node a).info.id = true →
    ∀ v ∈ (net.node a).valuesAt k, (net'.node a).copies k v = (net.node a).copies k v

/-- What a recovery leaves is a take-over when nothing of (q, p] was missing that is not requested,
and when no contacted node holds a value that the node had. -/
theorem Network.Recovered.takesOver_iff {φ : Type} {a : String} {p q : NodeInfo}
    {contacts : List NodeInfo} {net net' : Network φ}
    (h : Recovered a p.id (net.node a).info.id contacts net net') :
    TakesOver a p q contacts net net' ↔
      (∀ k, isBetween k q.id p.id = true → inRange p.id (net.node a).info.id k = false →
        ∀ r ∈ contacts, ∀ v ∈ (net.node r.address).valuesAt k, v ∈ (net.node a).valuesAt k) ∧
      ∀ k, isBetween k p.id (net.node a).info.id = true → ∀ r ∈ contacts,
        ∀ v ∈ (net.node a).valuesAt k, v ∉ (net.node r.address).valuesAt k := by
  refine and_congr ?_ ?_
  · -- Outside the requested range nothing is appended.
    refine forall_congr' fun k => imp_congr_right fun _ => ?_
    obtain ⟨added, hvalues, hadded⟩ := h k
    rw [hvalues]
    constructor
    · intro htakes hout r hr v hv
      rcases List.mem_append.mp (htakes r hr v hv) with hold | hnew
      · exact hold
      · rw [hadded v, hout] at hnew
        cases hnew.1
    · intro hhad r hr v hv
      cases hin : inRange p.id (net.node a).info.id k with
      | false => exact List.mem_append_left _ (hhad hin r hr v hv)
      | true => exact List.mem_append_right _ ((hadded v).mpr ⟨hin, r, hr, hv⟩)
  · -- A key of the node is requested, so each copy that a contacted node holds is appended.
    refine forall_congr' fun k => imp_congr_right fun howned => ?_
    obtain ⟨added, hvalues, hadded⟩ := h k
    have hin : inRange p.id (net.node a).info.id k = true := by
      rw [inRange, howned, Bool.true_or]
    have hcount : ∀ v, (net'.node a).copies k v = (net.node a).copies k v ↔ v ∉ added := by
      intro v
      rw [ChordNode.copies, ChordNode.copies, hvalues, List.count_append, Nat.add_eq_left,
        List.count_eq_zero]
    constructor
    · intro hsame r hr v hv hheld
      exact (hcount v).mp (hsame v hv) ((hadded v).mpr ⟨hin, r, hr, hheld⟩)
    · intro hnone v hv
      rw [hcount v, hadded v]
      rintro ⟨-, r, hr, hheld⟩
      exact hnone r hr v hv hheld

/-- When a node takes over from a predecessor that has failed. The recovery asks for the keys of
the node itself. So the node takes over when it already has what the contacted nodes hold under the
other keys of the failed predecessor, and when no contacted node holds a value that the node has
under one of its own keys. -/
theorem checkPredecessor_takesOver_iff {φ : Type} (medium : Medium φ) (net : Network φ)
    (a : String) (p q : NodeInfo) (depth : ℕ) (h : PredecessorFailed medium net a p q) :
    Returns (checkPredecessor (env medium (depth + 1) a)) net fun _ net' =>
      TakesOver a p q (recoveryContacts medium net a p) net net' ↔
        (∀ k, isBetween k q.id p.id = true → inRange p.id (net.node a).info.id k = false →
          ∀ r ∈ recoveryContacts medium net a p,
            ∀ v ∈ (net.node r.address).valuesAt k, v ∈ (net.node a).valuesAt k) ∧
        ∀ k, isBetween k p.id (net.node a).info.id = true →
          ∀ r ∈ recoveryContacts medium net a p,
            ∀ v ∈ (net.node a).valuesAt k, v ∉ (net.node r.address).valuesAt k :=
  (checkPredecessor_recovered h.predecessor h.unreachable).mono fun _ _ hr => hr.takesOver_iff

/-! ### A ring of three nodes whose middle one has failed -/

/-- The node with an id in the ring 10, 20, 30. The node 10 holds a value under `key`. -/
def middleRingNode (key id : NodeId) : ChordNode :=
  { linkedNode (fun _ => biguintToNodeId 10)
      (fun i => some (if i = biguintToNodeId 30 then biguintToNodeId 20 else biguintToNodeId 10)) id
    with data := if id = biguintToNodeId 10 then (∅ : DataMap).insert key [[1]] else ∅ }

/-- The ring 10, 20, 30 in which the node 20 is dead. -/
def failedMiddle (key : NodeId) : Network Unit where
  node address := middleRingNode key (idOf address)
  listening address := idOf address ≠ biguintToNodeId 20
  medium := ()

/-- The states of the nodes. -/
theorem failedMiddle_node (key i : NodeId) :
    (failedMiddle key).node (infoOf i).address = middleRingNode key i :=
  congrArg (middleRingNode key) (idOf_addressOf i)

/-- All but the node 20 listen. -/
theorem failedMiddle_listening (key i : NodeId) :
    (failedMiddle key).listening (infoOf i).address = decide (i ≠ biguintToNodeId 20) := by
  show decide (idOf (addressOf i) ≠ biguintToNodeId 20) = _
  rw [idOf_addressOf]

/-- Only the node 10 has data. -/
theorem middleRingNode_valuesAt (key k i : NodeId) : (middleRingNode key i).valuesAt k
    = if i = biguintToNodeId 10 ∧ k = key then [[1]] else [] := by
  show ((if i = biguintToNodeId 10 then (∅ : DataMap).insert key [[1]] else ∅).lookup k).getD []
    = _
  by_cases hi : i = biguintToNodeId 10
  · rw [if_pos hi]
    by_cases hk : k = key
    · rw [if_pos ⟨hi, hk⟩, hk, AList.lookup_insert]
      rfl
    · rw [if_neg fun h => hk h.2, AList.lookup_insert_ne hk]
      rfl
  · rw [if_neg hi, if_neg fun h => hi h.1]
    rfl

/-- The predecessor of the node 30 has failed. -/
theorem failedMiddle_failed (key : NodeId) :
    PredecessorFailed reliable (failedMiddle key) (infoOf (biguintToNodeId 30)).address
      (infoOf (biguintToNodeId 20)) (infoOf (biguintToNodeId 10)) where
  predecessor := by
    rw [failedMiddle_node]
    rfl
  before := by
    have hne : biguintToNodeId 20 ≠ biguintToNodeId 30 := by decide
    rw [failedMiddle_node]
    exact congrArg (fun i => some (infoOf i)) (if_neg hne)
  unreachable := by
    have hdead : (failedMiddle key).listening (infoOf (biguintToNodeId 20)).address = false := by
      rw [failedMiddle_listening]
      decide
    rw [answers, hdead, Bool.and_false]

/-- Under the reliable medium the contacted nodes are those that listen. -/
theorem contacted_reliable (m : DhtMessage) (net : Network Unit) (l : List NodeInfo) :
    contacted reliable m net l = l.filter fun x => net.listening x.address := by
  induction l with
  | nil => rfl
  | cons x l ih =>
    unfold contacted
    dsimp only
    rw [ih, List.filter_cons]
    rfl

/-- The node 30 asks the node 10. -/
theorem failedMiddle_contacts (key : NodeId) :
    infoOf (biguintToNodeId 10) ∈ recoveryContacts reliable (failedMiddle key)
      (infoOf (biguintToNodeId 30)).address (infoOf (biguintToNodeId 20)) := by
  have hasked : infoOf (biguintToNodeId 10) ∈ (linkedNode (fun _ => biguintToNodeId 10)
      (fun _ => none) (biguintToNodeId 30)).getReplicaNodesForRange
        (biguintToNodeId 20) (biguintToNodeId 30) := by
    decide +kernel
  rw [recoveryContacts, contacted_reliable, failedMiddle_node]
  refine List.mem_filter.mpr ⟨hasked, ?_⟩
  show (failedMiddle key).listening (infoOf (biguintToNodeId 10)).address = true
  rw [failedMiddle_listening]
  decide

/-- `checkPredecessor_takesOver_iff` for a value under the key 25, which the node 30 owns and does
not hold. -/
theorem checkPredecessor_takesOver_iff_owned :
    Returns (checkPredecessor (env reliable 1 (infoOf (biguintToNodeId 30)).address))
      (failedMiddle (biguintToNodeId 25)) fun _ net' =>
        TakesOver (infoOf (biguintToNodeId 30)).address (infoOf (biguintToNodeId 20))
          (infoOf (biguintToNodeId 10)) (recoveryContacts reliable
            (failedMiddle (biguintToNodeId 25)) (infoOf (biguintToNodeId 30)).address
            (infoOf (biguintToNodeId 20)))
          (failedMiddle (biguintToNodeId 25)) net' := by
  refine (checkPredecessor_takesOver_iff reliable _ _ _ _ 0
    (failedMiddle_failed (biguintToNodeId 25))).mono fun _ net' hiff => hiff.mpr ⟨?_, ?_⟩
  · -- The only key with a value lies outside (10, 20].
    intro k harc _ r _ v hv
    rw [show ((failedMiddle _).node r.address).valuesAt k = _ from
      middleRingNode_valuesAt (biguintToNodeId 25) k (idOf r.address)] at hv
    split at hv
    · rename_i hkey
      rw [hkey.2] at harc
      exact absurd harc (by decide)
    · cases hv
  · -- The node 30 has no data.
    intro k _ r _ v hv
    rw [failedMiddle_node, middleRingNode_valuesAt, if_neg fun h => absurd h.1 (by decide)] at hv
    cases hv

/-- A node does not take over from a failed predecessor: the node 10 answers and holds a value
under the key 15, which the dead node 20 owned, and the node 30 does not get it. -/
theorem not_checkPredecessor_takesOver :
    ¬ ∀ (net : Network Unit) (a : String) (p q : NodeInfo), PredecessorFailed reliable net a p q →
      Returns (checkPredecessor (env reliable 1 a)) net fun _ net' =>
        TakesOver a p q (recoveryContacts reliable net a p) net net' := by
  intro hall
  have hfailed := failedMiddle_failed (biguintToNodeId 15)
  obtain ⟨_, net', -, htakes, hrecovered⟩ := (hall _ _ _ _ hfailed).and
    (checkPredecessor_recovered hfailed.predecessor hfailed.unreachable)
  have hcond := (hrecovered.takesOver_iff (q := infoOf (biguintToNodeId 10))).mp htakes
  have hheld : [1] ∈ ((failedMiddle (biguintToNodeId 15)).node
      (infoOf (biguintToNodeId 10)).address).valuesAt (biguintToNodeId 15) := by
    rw [failedMiddle_node, middleRingNode_valuesAt, if_pos ⟨rfl, rfl⟩]
    exact List.mem_singleton_self _
  have hmem := hcond.1 (biguintToNodeId 15) (by decide) (by rw [failedMiddle_node]; decide) _
    (failedMiddle_contacts _) [1] hheld
  rw [failedMiddle_node, middleRingNode_valuesAt, if_neg fun h => absurd h.1 (by decide)] at hmem
  cases hmem

end TaceChat
