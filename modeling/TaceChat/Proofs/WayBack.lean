import TaceChat.Proofs.IdNetwork
import TaceChat.Proofs.Rounds

/-!
# The successor list as the way back into the ring

After a stabilization the successor list starts with the successor that the node has then. This
successor has answered, except when the node has just adopted it from its old successor's answer:
nothing contacts the adopted node before the list is rebuilt from it. When the adopted node is
dead, the list holds that node only (`stabilize_wayBack_iff`).
-/

set_option autoImplicit false

namespace TaceChat

namespace Network

variable {depth : ℕ} {a : String} {net : Network Unit}

/-- The node can reach the other node. -/
def reaches (net : Network Unit) (a : String) (x : NodeInfo) : Bool :=
  decide (x.id ≠ (net.node a).info.id) && net.listening x.address

/-- A node reaches what listens at the address of another node. -/
theorem reaches_iff {x : NodeInfo} : net.reaches a x = true ↔
    x.id ≠ (net.node a).info.id ∧ net.listening x.address = true := by
  rw [reaches, Bool.and_eq_true, decide_eq_true_eq]

/-- The node can reach an entry of the list, other than itself. -/
def WayBack (net : Network Unit) (a : String) (list : List NodeInfo) : Prop :=
  ∃ x ∈ list, net.reaches a x = true

/-- A call to a node that does not listen. -/
theorem returns_call_dead {address : String} {m : DhtMessage}
    {Q : Option DhtMessage → Network Unit → Prop} (hl : net.listening address = false) :
    Returns (call reliable (depth + 1) address m) net Q ↔ Q none net :=
  returns_call_lost (Or.inr hl)

/-- The pings of a successor list stop at the first entry that the node reaches. -/
theorem firstReachable_reliable (list : List NodeInfo) :
    Returns (firstReachable (env reliable (depth + 1) a) list) net fun r net' =>
      net' = net ∧ r = list.find? (net.reaches a) := by
  induction list with
  | nil => exact returns_pure.mpr ⟨rfl, rfl⟩
  | cons s rest ih =>
    have hskip : net.reaches a s ≠ true →
        Returns (firstReachable (env reliable (depth + 1) a) rest) net fun r net' =>
          net' = net ∧ r = (s :: rest).find? (net.reaches a) := by
      intro hs
      rwa [List.find?_cons_of_neg hs]
    simp only [firstReachable, returns_bind, returns_safeLock, returns_ite, env_node, env_callNode]
    refine ⟨fun hself => hskip fun h => (reaches_iff.mp h).1 hself, fun hself => ?_⟩
    cases hl : net.listening s.address with
    | false =>
      rw [returns_call_dead hl]
      refine hskip fun h => ?_
      have := (reaches_iff.mp h).2
      rw [hl] at this
      exact Bool.false_ne_true this
    | true =>
      rw [call_read_answered rfl rfl hl]
      refine returns_pure.mpr ⟨rfl, ?_⟩
      rw [List.find?_cons_of_pos (reaches_iff.mpr ⟨hself, hl⟩)]

/-- The successor list rebuilt from a dead successor holds nothing else. -/
theorem updateSuccessorList_dead (hne : (net.node a).successor.id ≠ (net.node a).info.id)
    (hl : net.listening (net.node a).successor.address = false) :
    Returns (updateSuccessorList (env reliable (depth + 1) a)) net fun _ net' =>
      net' = net.withList a (fillSuccessorList (net.node a).successor []) := by
  have hsize : successorListSize - 1 = 1 + 1 := rfl
  simp only [updateSuccessorList, hsize, walkSuccessors, returns_bind, returns_safeLock,
    returns_ite, env_node, env_callNode]
  refine ⟨fun h => absurd h hne, fun _ => ?_⟩
  rw [returns_call_dead hl]
  simp only [returns_pure, returns_safeUpdate, env_node, env_setNode]
  rfl

/-- The head of a filled list. -/
theorem head_mem_fillSuccessorList (x : NodeInfo) (rest : List NodeInfo) :
    x ∈ fillSuccessorList x rest := by
  simp [fillSuccessorList]

/-- A filled list of one entry holds nothing else. -/
theorem eq_of_mem_fillSuccessorList {x y : NodeInfo} (h : y ∈ fillSuccessorList x []) :
    y = x := by
  simp only [fillSuccessorList, List.getLast_singleton, List.mem_append, List.mem_singleton,
    List.mem_replicate] at h
  rcases h with h | h
  · exact h
  · exact h.2

/-- A successor list rebuilt from a live successor leads back. -/
theorem updateSuccessorList_wayBack (hne : (net.node a).successor.id ≠ (net.node a).info.id)
    (hl : net.listening (net.node a).successor.address = true) :
    Returns (updateSuccessorList (env reliable (depth + 1) a)) net fun _ net' =>
      WayBack net' a (net'.node a).successorList := by
  refine (updateSuccessorList_returns net).mono ?_
  rintro - net' ⟨rest, -, hs⟩
  rw [SameNodes.eq hs, withList, setNode_node_self]
  refine ⟨(net.node a).successor, head_mem_fillSuccessorList _ _, reaches_iff.mpr ⟨?_, hl⟩⟩
  rw [setNode_node_self]
  exact hne

/-- What the notification leaves for the rest of the round, whether it reaches its target or
not. -/
theorem call_notify_self (net : Network Unit) (a : String) :
    Returns (call reliable (depth + 3) (net.node a).successor.address
      (.notify (net.node a).info.id (net.node a).info.address (net.node a).info.apiAddress)) net
      fun _ net' => net'.listening = net.listening ∧
        (net'.node a).info = (net.node a).info ∧
        (net'.node a).successor = (net.node a).successor := by
  cases hl : net.listening (net.node a).successor.address with
  | false =>
    rw [returns_call_dead hl]
    exact ⟨rfl, rfl, rfl⟩
  | true =>
    refine (call_notify_changesData hl).mono ?_
    rintro - net' h
    have hsame := h.samePointers
    refine ⟨hsame.listening.trans (notified_info a net).1, ?_, ?_⟩
    · rw [hsame.info, notified_node_self]
    · rw [hsame.successor, notified_node_self]

/-- The rest of a round after the successor has answered, by the successor the node has then. -/
theorem notifyAndRefresh_wayBack (hne : (net.node a).successor.id ≠ (net.node a).info.id) :
    Returns (notifyAndRefresh reliable (depth + 3) a (net.node a)) net fun _ net' =>
      WayBack net' a (net'.node a).successorList ↔
        net.listening (net.node a).successor.address = true := by
  simp only [notifyAndRefresh, returns_bind, returns_discard]
  refine (call_notify_self net a).mono ?_
  rintro - net₁ ⟨hl₁, hinfo₁, hsucc₁⟩
  have hne₁ : (net₁.node a).successor.id ≠ (net₁.node a).info.id := by
    rw [hsucc₁, hinfo₁]
    exact hne
  cases hl : net.listening (net.node a).successor.address with
  | false =>
    refine (updateSuccessorList_dead hne₁ (by rw [hl₁, hsucc₁]; exact hl)).mono ?_
    rintro - net' rfl
    refine iff_of_false ?_ Bool.false_ne_true
    rintro ⟨x, hx, hreach⟩
    have hlx := (reaches_iff.mp hreach).2
    rw [withList, setNode_node_self] at hx
    rw [eq_of_mem_fillSuccessorList hx, withList, setNode_listening, hl₁, hsucc₁, hl] at hlx
    exact Bool.false_ne_true hlx
  | true =>
    refine (updateSuccessorList_wayBack hne₁ (by rw [hl₁, hsucc₁]; exact hl)).mono ?_
    exact fun _ _ h => iff_of_true h rfl

/-- A round whose successor does not answer. -/
theorem returns_stabilize_dead {Q : Unit → Network Unit → Prop}
    (hne : (net.node a).info.id ≠ (net.node a).successor.id)
    (hl : net.listening (net.node a).successor.address = false) :
    Returns (stabilize (env reliable (depth + 1) a)) net Q ↔
      Returns (replaceSuccessor (env reliable (depth + 1) a)) net Q := by
  simp only [stabilize, returns_bind, returns_safeLock, returns_ite, env_node, env_callNode, hne,
    false_implies, not_false_iff, true_implies, true_and]
  rw [returns_call_dead hl]

/-- A round with a dead successor goes on with a live one, if the list has one. -/
theorem replaceSuccessor_wayBack :
    Returns (replaceSuccessor (env reliable (depth + 1) a)) net fun _ net' =>
      WayBack net a (net.node a).successorList → WayBack net' a (net'.node a).successorList := by
  simp only [replaceSuccessor, findNextAvailableSuccessor, returns_bind, returns_safeLock,
    env_node]
  refine (firstReachable_reliable _).mono ?_
  rintro r net' ⟨rfl, rfl⟩
  cases hfind : (net'.node a).successorList.find? (net'.reaches a) with
  | none =>
    refine returns_pure.mpr ?_
    rintro ⟨x, hx, hreach⟩
    exact absurd hreach (List.find?_eq_none.mp hfind x hx)
  | some x =>
    obtain ⟨hxself, hxl⟩ := reaches_iff.mp (List.find?_some hfind)
    simp only [returns_bind, returns_safeUpdate, env_node, env_setNode]
    refine (updateSuccessorList_wayBack ?_ ?_).mono fun _ _ h _ => h
    · rw [setNode_node_self]
      exact hxself
    · rw [setNode_node_self]
      exact hxl

/-- The successor of a node that its successor has answered: adopted from the answer, or kept. -/
theorem answered_successor (a : String) (net : Network Unit) :
    let s := (net.node a).successor
    (∃ x, (net.node s.address).predecessor = some x ∧
        isBetween x.id (net.node a).info.id s.id = true ∧
        ((net.answered a).node a).successor = x) ∨
      (¬ ∃ x, (net.node s.address).predecessor = some x ∧
        isBetween x.id (net.node a).info.id s.id = true) ∧
        ((net.answered a).node a).successor = s := by
  intro s
  rw [answered, setNode_node_self]
  cases hx : (net.node s.address).predecessor with
  | none =>
    refine Or.inr ⟨?_, rfl⟩
    rintro ⟨x, h, -⟩
    cases h
  | some x =>
    by_cases hin : isBetween x.id (net.node a).info.id s.id = true
    · exact Or.inl ⟨x, rfl, hin, by rw [ChordNode.afterAnswer_adopt hin]⟩
    · refine Or.inr ⟨?_, by rw [ChordNode.afterAnswer_keep hin]⟩
      rintro ⟨y, hy, hiny⟩
      cases hy
      exact hin hiny

/-- A node between the node and its successor is another node. -/
theorem ne_of_isBetween {x s e : NodeId} (h : isBetween x s e = true) : x ≠ s := by
  rintro rfl
  exact isBetween_start _ _ h

/-- A round with a live successor keeps the way back when the node listens that is the successor
after the answer. -/
theorem stabilize_live_wayBack (hne : (net.node a).info.id ≠ (net.node a).successor.id)
    (hl : net.listening (net.node a).successor.address = true) :
    Returns (stabilize (env reliable (depth + 3) a)) net fun _ net' =>
      WayBack net' a (net'.node a).successorList ↔
        net.listening ((net.answered a).node a).successor.address = true := by
  rw [returns_stabilize_answered hne hl]
  refine notifyAndRefresh_wayBack ?_
  rw [answered_info]
  rcases answered_successor a net with ⟨x, -, hin, hx⟩ | ⟨-, hs⟩
  · rw [hx]
    exact ne_of_isBetween hin
  · rw [hs]
    exact Ne.symm hne

end Network

open Network

/-- When a stabilization keeps the way back into the ring. The node has a successor other than
itself. If that successor or an entry of the successor list is reachable, then a reachable entry
is in the list afterwards, exactly when it is not so that the successor is reachable and reports
an unreachable predecessor that lies between the node and the successor. -/
theorem stabilize_wayBack_iff (net : Network Unit) (a : String) (depth : ℕ)
    (hne : (net.node a).info.id ≠ (net.node a).successor.id) :
    Returns (stabilize (env reliable (depth + 3) a)) net fun _ net' =>
      (net.listening (net.node a).successor.address = true ∨
          WayBack net a (net.node a).successorList →
        WayBack net' a (net'.node a).successorList) ↔
      ¬ (net.listening (net.node a).successor.address = true ∧
        ∃ x, (net.node (net.node a).successor.address).predecessor = some x ∧
          isBetween x.id (net.node a).info.id (net.node a).successor.id = true ∧
          net.listening x.address = false) := by
  cases hl : net.listening (net.node a).successor.address with
  | false =>
    rw [returns_stabilize_dead hne hl]
    simp only [Bool.false_eq_true, false_and, not_false_iff, iff_true, false_or]
    exact replaceSuccessor_wayBack
  | true =>
    simp only [true_or, true_implies, true_and]
    refine (stabilize_live_wayBack hne hl).mono fun _ net' hway => hway.trans ?_
    rcases answered_successor a net with ⟨x, hpred, hin, hx⟩ | ⟨hnone, hs⟩
    · rw [hx, ← Bool.not_eq_false]
      refine not_congr ⟨fun hdead => ⟨x, hpred, hin, hdead⟩, ?_⟩
      rintro ⟨y, hy, -, hdead⟩
      rw [hpred] at hy
      cases hy
      exact hdead
    · rw [hs]
      exact iff_of_true hl fun ⟨x, hx, hin, _⟩ => hnone ⟨x, hx, hin⟩

/-! ### A round that loses the way back -/

/-- The node 10 has the successor 30, which still has the predecessor 20. The node 20 is dead. -/
def deadMiddle : Network Unit :=
  { Network.ofIds (linkedNode (fun _ => biguintToNodeId 30) fun _ => some (biguintToNodeId 20)) with
    listening := fun address => idOf address ≠ biguintToNodeId 20 }

/-- The states of the nodes. -/
theorem deadMiddle_node (i : NodeId) : deadMiddle.node (infoOf i).address
    = linkedNode (fun _ => biguintToNodeId 30) (fun _ => some (biguintToNodeId 20)) i := by
  exact congrArg (linkedNode (fun _ => biguintToNodeId 30) fun _ => some (biguintToNodeId 20))
    (idOf_addressOf i)

/-- All but the node 20 listen. -/
theorem deadMiddle_listening (i : NodeId) :
    deadMiddle.listening (infoOf i).address = decide (i ≠ biguintToNodeId 20) := by
  show decide (idOf (addressOf i) ≠ biguintToNodeId 20) = _
  rw [idOf_addressOf]

/-- `stabilize_wayBack_iff` at a node 25: its successor 30 reports the node 20, which does not lie
between, so the list has a reachable entry. -/
theorem stabilize_wayBack_iff_deadMiddle :
    Returns (stabilize (env reliable 3 (infoOf (biguintToNodeId 25)).address)) deadMiddle
      fun _ net' => WayBack net' (infoOf (biguintToNodeId 25)).address
        (net'.node (infoOf (biguintToNodeId 25)).address).successorList := by
  have hnode := deadMiddle_node (biguintToNodeId 25)
  have hsucc : (deadMiddle.node (infoOf (biguintToNodeId 25)).address).successor
      = infoOf (biguintToNodeId 30) := by
    rw [hnode]
    rfl
  have hne : (deadMiddle.node (infoOf (biguintToNodeId 25)).address).info.id
      ≠ (deadMiddle.node (infoOf (biguintToNodeId 25)).address).successor.id := by
    rw [hnode]
    decide
  refine (stabilize_wayBack_iff deadMiddle _ 0 hne).mono fun _ net' hiff => ?_
  refine hiff.mpr ?_ (Or.inl ?_)
  · rintro ⟨-, x, hx, hin, -⟩
    rw [hsucc, deadMiddle_node] at hx
    cases hx
    rw [hnode] at hin
    exact absurd hin (by decide)
  · rw [hsucc, deadMiddle_listening]
    decide

/-- A stabilization can lose the way back: the node 10 adopts the dead node 20, and its successor
list holds nothing else afterwards. -/
theorem stabilize_loses_wayBack :
    ¬ ∀ (net : Network Unit) (a : String),
      (net.node a).info.id ≠ (net.node a).successor.id →
      Returns (stabilize (env reliable 3 a)) net fun _ net' =>
        net.listening (net.node a).successor.address = true ∨
            WayBack net a (net.node a).successorList →
          WayBack net' a (net'.node a).successorList := by
  intro hall
  have hnode := deadMiddle_node (biguintToNodeId 10)
  have hne : (deadMiddle.node (infoOf (biguintToNodeId 10)).address).info.id
      ≠ (deadMiddle.node (infoOf (biguintToNodeId 10)).address).successor.id := by
    rw [hnode]
    decide
  have hsucc : (deadMiddle.node (infoOf (biguintToNodeId 10)).address).successor
      = infoOf (biguintToNodeId 30) := by
    rw [hnode]
    rfl
  have hl : deadMiddle.listening
      (deadMiddle.node (infoOf (biguintToNodeId 10)).address).successor.address = true := by
    rw [hsucc, deadMiddle_listening]
    decide
  obtain ⟨_, net', -, hkeeps, hlive⟩ := (hall deadMiddle _ hne).and (stabilize_live_wayBack hne hl)
  -- Node 30 answers with its predecessor 20, which lies between and is adopted, dead or not.
  have hadopted : ((deadMiddle.answered (infoOf (biguintToNodeId 10)).address).node
      (infoOf (biguintToNodeId 10)).address).successor = infoOf (biguintToNodeId 20) := by
    have hin : isBetween (biguintToNodeId 20) (biguintToNodeId 10) (biguintToNodeId 30) = true := by
      decide
    rcases answered_successor (infoOf (biguintToNodeId 10)).address deadMiddle with
      ⟨x, hx, -, heq⟩ | ⟨hnone, -⟩
    · rw [hsucc, deadMiddle_node] at hx
      cases hx
      exact heq
    · refine absurd ⟨infoOf (biguintToNodeId 20), ?_, ?_⟩ hnone
      · rw [hsucc, deadMiddle_node]
        rfl
      · rw [hsucc, hnode]
        exact hin
  have := hlive.mp (hkeeps (Or.inl hl))
  rw [hadopted, deadMiddle_listening] at this
  exact absurd this (by decide)

end TaceChat
