import TaceChat.Model.Api
import TaceChat.Proofs.Availability
import TaceChat.Proofs.LookupOwner

/-!
# Where an acknowledged message is

`message_handler` looks up the owner of the recipient's key, stores the message there, and answers
200 when the request to store has been answered. Once the lookup has found the owner, an answer of
200 means that the owner has appended the message, whatever becomes of the other calls
(`messageHandler_appends`).

The lookup itself does not fail. When one of its calls fails, it goes on with what it has, and the
message can end up at a node that is not the owner (`messageHandler_misses_owner`).
-/

set_option autoImplicit false

namespace TaceChat

open IdCircle Network

namespace Directory

variable {D : Directory} {φ : Type} {medium : Medium φ} {net : Network φ} {depth : ℕ}

/-- A store appends its value once at the node itself. The replica nodes are other nodes. -/
theorem Serves.store_appends_self (hS : D.Serves net) {i : NodeId} (hi : i ∈ D.ids)
    (key : NodeId) (value : Value) :
    Returns (store (env medium (depth + 1) (D.info i).address) key value) net fun _ net' =>
      (D.at' net'.node i).valuesAt key = (D.at' net.node i).valuesAt key ++ [value] := by
  refine (store_appends hS.closed (hS.reports i hi) key value).mono ?_
  rintro - net' ⟨-, primary, l, hprimary, hsub, hnode⟩
  have hid : (net.node (D.info i).address).info.id = i :=
    (congrArg NodeInfo.id (hS.info i hi)).trans (D.info_id i)
  rw [hid] at hsub
  have hother : (D.info i).address ∉ l := fun hmem =>
    hS.notMem_replicaAddresses hi hprimary (hsub.subset hmem)
  rw [at', hnode, foldl_appendAt_of_notMem l hother, appendAt, Function.update_self,
    ChordNode.valuesAt_extendKey]
  rfl

/-- The loop ends at a node whose closest finger is the node itself. -/
theorem findPredecessorLoop_of_hop_self (hS : D.Serves net) {q id : NodeId} (hq : q ∈ D.ids)
    (hhop : D.hop net.node id q = q) (retries : ℕ) (successor : NodeInfo) :
    Returns (findPredecessorLoop (env medium (depth + 1) (D.info q).address) id (retries + 1)
      (D.info q) successor) net fun r net' => r = D.info q ∧ net' = net := by
  have hself : (net.node (D.info q).address).info = D.info q := hS.info q hq
  have hclosest : (net.node (D.info q).address).closestPrecedingNode id = D.info q := by
    have h := hS.routes.hop_eq id hq
    rwa [hhop] at h
  rw [findPredecessorLoop]
  simp only [nextNode, returns_bind, returns_safeLock, returns_ite, env_node, hself, hclosest,
    returns_pure, and_self, not_true_eq_false, false_implies, implies_true]

/-- A lookup whose first finger is the node itself makes no call. -/
theorem findSuccessor_of_hop_self (hS : D.Serves net) {q id : NodeId} (hq : q ∈ D.ids)
    (hhop : D.hop net.node id q = q) :
    Returns (findSuccessor (env medium (depth + 1) (D.info q).address) id) net
      fun r net' => r = D.info (D.succ net.node q) ∧ net' = net := by
  have hself : (net.node (D.info q).address).info = D.info q := hS.info q hq
  have hsucc : (net.node (D.info q).address).successor = D.info (D.succ net.node q) :=
    hS.routes.successor_eq hq
  have hpred : Returns (findPredecessor (env medium (depth + 1) (D.info q).address) id) net
      fun r net' => r = D.info q ∧ net' = net := by
    simp only [findPredecessor, returns_bind, returns_safeLock, env_node, hself]
    exact findPredecessorLoop_of_hop_self hS hq hhop (maxRetries - 1) _
  refine hpred.bind ?_
  rintro _ _ ⟨rfl, rfl⟩
  simp only [returns_bind, returns_safeLock, returns_ite, env_node, hself, returns_pure, hsucc,
    and_self, not_true_eq_false, false_implies, implies_true]

/-- The lookup finds the owner of an id when the calls that it needs are answered. -/
theorem findSuccessor_finds_owner {B : ℕ → φ → Prop} (hB : medium.Budget B) (hS : D.Serves net)
    (hsucc : D.ExactSuccessors D.ids net.node) {q id : NodeId} (hq : q ∈ D.ids)
    (h : D.ids.card = 1 ∨ ∃ h ≤ maxRetries, B (2 * h) net.medium ∧
      D.OnTarget net.node id ((D.hop net.node id)^[h] q)) :
    Returns (findSuccessor (env medium (depth + 1) (D.info q).address) id) net
      fun r net' => r = D.info (owner D.ids id) ∧ SameNodes net net' := by
  rcases h with hone | ⟨h, hle, hb, hon⟩
  · have hhop : D.hop net.node id q = q :=
      Finset.card_le_one.mp hone.le _ (hS.routes.hop_mem id hq) q hq
    refine (findSuccessor_of_hop_self hS hq hhop).mono ?_
    rintro _ _ ⟨rfl, rfl⟩
    exact ⟨by rw [D.owner_of_card_one hsucc hq hone], .refl _⟩
  · refine (findSuccessor_route (c := 0) hB hS.routes hq hle (Or.inr hon) hb).mono ?_
    rintro _ net' ⟨rfl, hsame, -⟩
    have htarget := D.route_of_onTarget ⟨h, hle, hon⟩
    exact ⟨by rw [D.owner_of_onTarget hsucc (hS.routes.route_mem id maxRetries hq) htarget], hsame⟩

/-- What `message_handler` does after its lookup, by what the lookup guarantees of the node that it
finds. -/
theorem Serves.storeAtResponsible_appends {P : NodeId → Prop} (hS : D.Serves net) {q key : NodeId}
    (hq : q ∈ D.ids) {serialized : Value}
    (hlookup : Returns (findSuccessor (env medium (depth + 2) (D.info q).address) key) net
      fun r net' => (∃ i ∈ D.ids, P i ∧ r = D.info i) ∧ SameNodes net net') :
    Returns (storeAtResponsible (env medium (depth + 2) (D.info q).address) key serialized) net
      fun response net' => response.status = .ok → ∃ i ∈ D.ids, P i ∧
        (D.at' net'.node i).valuesAt key = (D.at' net.node i).valuesAt key ++ [serialized] := by
  refine hlookup.bind ?_
  rintro _ net₁ ⟨⟨i, hi, hP, rfl⟩, hsame⟩
  have hS₁ := hS.sameNodes hsame
  rw [← hsame.1]
  simp only [returns_bind, returns_safeLock, returns_ite, env_node, env_callNode,
    hS₁.info_id_eq hq, returns_pure]
  refine ⟨fun heq => ?_, fun hne => ?_⟩
  · subst heq
    exact (hS₁.store_appends_self hi key serialized).mono fun _ _ h _ => ⟨i, hi, hP, h⟩
  · refine returns_call_of_handler (fun _ => ?_) fun s => ?_
    · -- The request has not arrived, and the answer is 500.
      exact returns_pure.mpr fun h => by cases h
    · have hS₂ : D.Serves { net₁ with medium := s } := hS₁.sameNodes ⟨rfl, rfl⟩
      simp only [handleConnection.eq_def, returns_bind, returns_pure]
      refine (hS₂.store_appends_self hi key serialized).mono ?_
      rintro - net₂ happend
      exact ⟨fun _ => ⟨i, hi, hP, happend⟩, fun h => by cases h⟩

end Directory

/-- In a ring with exact successors, a message that `message_handler` has answered 200 for has been
appended at some node of the ring, whichever calls fail. That node is the owner of the recipient's
key when the calls of the lookup itself are answered. -/
theorem messageHandler_appends {φ : Type} (D : Directory) (medium : Medium φ) (net : Network φ)
    (depth : ℕ) (B : ℕ → φ → Prop) (sha1 : List UInt8 → NodeId)
    (serialize : StoredMessage → Option Value) (now : ℕ) (payload : MessagePayload) (q key : NodeId)
    (hS : D.Serves net) (hsucc : D.ExactSuccessors D.ids net.node) (hq : q ∈ D.ids)
    (hB : medium.Budget B) (hkey : key = generateKey sha1 payload.«to») :
    Returns (messageHandler (env medium (depth + 2) (D.info q).address) sha1 serialize now
        (.ok payload)) net fun response net' => response.status = .ok →
      ∃ serialized,
        serialize ⟨payload.«from», payload.ciphertext, payload.nonce, now⟩ = some serialized ∧
        ∃ i ∈ D.ids,
          ((D.ids.card = 1 ∨ ∃ h ≤ maxRetries, B (2 * h) net.medium ∧
              D.OnTarget net.node key ((D.hop net.node key)^[h] q)) → i = owner D.ids key) ∧
          (D.at' net'.node i).valuesAt key = (D.at' net.node i).valuesAt key ++ [serialized] := by
  subst hkey
  unfold messageHandler
  cases hserialize : serialize ⟨payload.«from», payload.ciphertext, payload.nonce, now⟩ with
  | none =>
    simp only [hserialize]
    exact returns_pure.mpr fun h => by cases h
  | some serialized =>
    simp only [hserialize]
    refine (hS.storeAtResponsible_appends hq ?_).mono fun _ _ happend hok =>
      ⟨serialized, rfl, happend hok⟩
    -- Only the name of the responsible node depends on the route; the append does not.
    by_cases h : D.ids.card = 1 ∨ ∃ h ≤ maxRetries, B (2 * h) net.medium ∧
        D.OnTarget net.node (generateKey sha1 payload.«to»)
          ((D.hop net.node (generateKey sha1 payload.«to»))^[h] q)
    · refine (Directory.findSuccessor_finds_owner hB hS hsucc hq h).mono ?_
      rintro _ net' ⟨rfl, hsame⟩
      exact ⟨⟨owner D.ids _, owner_mem ⟨q, hq⟩ _, fun _ => rfl, rfl⟩, hsame⟩
    · refine (findSuccessor_finds hS.closed (hS.reports q hq) _).mono ?_
      rintro _ net' ⟨hsame, i, hi, rfl⟩
      exact ⟨⟨i, hi, fun h' => absurd h' h, rfl⟩, hsame⟩

/-! ### The exact ring of two -/

/-- With exact fingers, the node 10 of the ring of two looks for the key 25 at the node 20. -/
theorem exactPair_closestPrecedingNode :
    (exactNode pairIds (biguintToNodeId 10)).closestPrecedingNode (biguintToNodeId 25)
      = infoOf (biguintToNodeId 20) := by
  have hfingers : ∀ x ∈ (exactNode pairIds (biguintToNodeId 10)).fingerTable,
      x = infoOf (biguintToNodeId 10) ∨ x = infoOf (biguintToNodeId 20) := by
    intro x hx
    obtain ⟨k, -, rfl⟩ := List.mem_map.mp hx
    have hmem : owner pairIds (addIdPowerOf2 (biguintToNodeId 10) k) ∈ pairIds :=
      owner_mem (by decide) _
    simp only [pairIds, Finset.mem_insert, Finset.mem_singleton] at hmem
    exact hmem.imp (congrArg infoOf) (congrArg infoOf)
  -- The first finger is node 20, so the scan finds something.
  have hfirst : infoOf (biguintToNodeId 20) ∈
      (exactNode pairIds (biguintToNodeId 10)).fingerTable := by
    refine List.mem_map.mpr ⟨0, List.mem_range.mpr (by decide), ?_⟩
    refine congrArg infoOf (owner_eq (by decide) fun c hc => ?_)
    simp only [pairIds, Finset.mem_insert, Finset.mem_singleton] at hc
    rcases hc with rfl | rfl <;> decide
  have hlength : (exactNode pairIds (biguintToNodeId 10)).fingerTable.length = M := by
    simp [exactNode]
  have htake := List.take_of_length_le hlength.le
  rcases (exactNode pairIds (biguintToNodeId 10)).closestPrecedingNode_cases
      (biguintToNodeId 25) with
    ⟨-, hnone⟩ | ⟨before, finger, after, htable, hin, -, hfound⟩
  · rw [htake] at hnone
    exact absurd ((isBetween_iff _ _ _).mp (by decide)) (hnone _ hfirst)
  · have hmem : finger ∈ (exactNode pairIds (biguintToNodeId 10)).fingerTable := by
      rw [← htake, htable]
      exact List.mem_append_right before List.mem_cons_self
    rw [hfound]
    rcases hfingers finger hmem with rfl | rfl
    · -- Node 10 itself is no finger between itself and the key.
      exact absurd hin not_inArc_start
    · rfl

/-- The node behind an address of the exact ring of two. -/
theorem exactPair_node (i : NodeId) :
    (Network.ofIds (exactNode pairIds)).node (infoOf i).address = exactNode pairIds i :=
  congrArg (exactNode pairIds) (idOf_addressOf i)

/-- The key 25 lies after both nodes, so the first one owns it. -/
theorem exactPair_owner : owner pairIds (biguintToNodeId 25) = biguintToNodeId 10 := by
  refine owner_eq (by decide) fun c hc => ?_
  simp only [pairIds, Finset.mem_insert, Finset.mem_singleton] at hc
  rcases hc with rfl | rfl <;> decide

/-- The search of the node 10 for the key 25 is on target after one hop, at the node 20. -/
theorem exactPair_onTarget : (Directory.ofIds pairIds).OnTarget
    (Network.ofIds (exactNode pairIds)).node (biguintToNodeId 25) (((Directory.ofIds pairIds).hop
      (Network.ofIds (exactNode pairIds)).node (biguintToNodeId 25))^[1] (biguintToNodeId 10)) := by
  have hat := Directory.at'_ofIds pairIds (exactNode pairIds)
  rw [Function.iterate_one, Directory.hop, hat, exactPair_closestPrecedingNode,
    Directory.OnTarget, Directory.succ, hat]
  have hsucc : next pairIds (biguintToNodeId 20) = biguintToNodeId 10 :=
    (next_pairIds (by decide)).trans (by decide)
  show isBetween _ (biguintToNodeId 20) (next pairIds (biguintToNodeId 20)) = true
  rw [hsucc]
  decide

/-- The medium that answers a number of calls, and loses all later ones. -/
def answersFirst : Medium ℕ := fun left _ _ =>
  if left = 0 then (.notDelivered, 0) else (.answered, left - 1)

/-- The medium answers as many calls as are left. -/
theorem answersFirst_budget : answersFirst.Budget fun k left => k ≤ left where
  answered h _ _ := by rw [answersFirst, if_neg (by omega)]
  next h _ _ := by
    rw [answersFirst, if_neg (by omega)]
    exact Nat.le_sub_one_of_lt h
  mono h := Nat.le_of_succ_le h

/-- `messageHandler_appends` when the two calls of the lookup are the only ones that are answered:
the node 10 asks the node 20, finds that it owns the key 25 itself, and stores the message. -/
theorem messageHandler_appends_exactPair :
    Returns (messageHandler (env answersFirst 2 (infoOf (biguintToNodeId 10)).address)
        (fun _ => biguintToNodeId 25) (fun _ => some [1]) 0 (.ok ⟨"", "", [], []⟩))
      { Network.ofIds (exactNode pairIds) with medium := 2 }
      fun response net' => response.status = .ok →
        ((Directory.ofIds pairIds).at' net'.node (biguintToNodeId 10)).valuesAt
          (biguintToNodeId 25) = [[1]] := by
  have hring := exactRing_ofIds pairIds
  have hS := hring.serves
  have hsucc : (Directory.ofIds pairIds).ExactSuccessors pairIds
      (Network.ofIds (exactNode pairIds)).node := fun i hi =>
    congrArg NodeInfo.id (hring.pointers.successor i hi)
  have hrun := messageHandler_appends (Directory.ofIds pairIds) answersFirst
    { Network.ofIds (exactNode pairIds) with medium := 2 } 0 (fun k left => k ≤ left)
    (fun _ => biguintToNodeId 25) (fun _ => some [1]) 0 ⟨"", "", [], []⟩ (biguintToNodeId 10)
    (biguintToNodeId 25) ⟨⟨hS.info, hS.listening⟩, hS.reports⟩ hsucc (by decide)
    answersFirst_budget rfl
  refine hrun.mono fun response net' h hok => ?_
  obtain ⟨serialized, hserialized, i, -, hi, hvalues⟩ := h hok
  obtain rfl : i = biguintToNodeId 10 :=
    (hi (Or.inr ⟨1, by decide, le_rfl, exactPair_onTarget⟩)).trans exactPair_owner
  obtain rfl := Option.some.inj hserialized
  rw [hvalues, Directory.at', Directory.ofIds]
  exact congrArg (fun n : ChordNode => n.valuesAt (biguintToNodeId 25) ++ [[1]])
    (exactPair_node (biguintToNodeId 10))

/-! ### A lookup that falls back -/

/-- The medium that loses the requests for a successor and the replication requests. -/
def losesSuccessors : Medium Unit := fun _ _ m =>
  (match m with
    | .getSuccessor => .notDelivered
    | .replicateData _ _ _ => .notDelivered
    | _ => .answered, ())

/-- The lookup of the key 25 falls back to the successor of the node 10. -/
theorem exactPair_findSuccessor :
    Returns (findSuccessor (env losesSuccessors 2 (infoOf (biguintToNodeId 10)).address)
      (biguintToNodeId 25)) (Network.ofIds (exactNode pairIds))
      fun r net' => r = infoOf (biguintToNodeId 20) ∧
        net' = Network.ofIds (exactNode pairIds) := by
  have hlost : ∀ {depth : ℕ} {a : String} {net : Network Unit}
      {Q : Option DhtMessage → Network Unit → Prop},
      Returns (call losesSuccessors (depth + 1) a .getSuccessor) net Q ↔ Q none net :=
    returns_call_lost (Or.inl rfl)
  have hsucc : next pairIds (biguintToNodeId 10) = biguintToNodeId 20 :=
    (next_pairIds (by decide)).trans (by decide)
  have hpred : Returns (findPredecessor
      (env losesSuccessors 2 (infoOf (biguintToNodeId 10)).address) (biguintToNodeId 25))
      (Network.ofIds (exactNode pairIds)) fun r net' => r = infoOf (biguintToNodeId 20) ∧
        net' = Network.ofIds (exactNode pairIds) := by
    simp only [findPredecessor, returns_bind, returns_safeLock, env_node, exactPair_node,
      maxRetries]
    rw [findPredecessorLoop]
    refine returns_ite.mpr ⟨fun h => ?_, fun _ => ?_⟩
    · simp only [exactNode, hsucc] at h
      exact absurd h (by decide)
    · have hnext : Returns (nextNode
          (env losesSuccessors 2 (infoOf (biguintToNodeId 10)).address) (biguintToNodeId 25)
          (exactNode pairIds (biguintToNodeId 10)).info) (Network.ofIds (exactNode pairIds))
          fun r net' => r = some (infoOf (biguintToNodeId 20)) ∧
            net' = Network.ofIds (exactNode pairIds) := by
        simp only [nextNode, returns_bind, returns_safeLock, env_node, exactPair_node]
        refine returns_ite.mpr ⟨fun _ => ?_, fun h => absurd trivial h⟩
        exact returns_pure.mpr ⟨congrArg some exactPair_closestPrecedingNode, rfl⟩
      refine hnext.bind ?_
      rintro _ _ ⟨rfl, rfl⟩
      refine returns_ite.mpr ⟨fun h => absurd h (by decide), fun _ => ?_⟩
      simp only [successorOf, returns_bind, returns_safeLock, env_node, exactPair_node,
        env_callNode]
      refine returns_ite.mpr ⟨fun h => absurd h (by decide), fun _ => ?_⟩
      refine returns_bind.mpr (hlost.mpr ?_)
      exact returns_pure.mpr (returns_pure.mpr ⟨rfl, rfl⟩)
  refine hpred.bind ?_
  rintro _ _ ⟨rfl, rfl⟩
  simp only [returns_bind, returns_safeLock, env_node, exactPair_node, env_callNode]
  refine returns_ite.mpr ⟨fun h => absurd h (by decide), fun _ => ?_⟩
  refine returns_bind.mpr (hlost.mpr ?_)
  -- The first node of the successor list answers a ping.
  obtain ⟨rest, hlist⟩ : ∃ rest, (exactNode pairIds (biguintToNodeId 10)).successorList =
      infoOf (biguintToNodeId 20) :: rest :=
    ⟨_, congrArg₂ List.cons (congrArg infoOf hsucc) rfl⟩
  simp only [findNextAvailableSuccessor, returns_bind, returns_safeLock, env_node, exactPair_node]
  rw [hlist, firstReachable]
  simp only [returns_bind, returns_safeLock, env_node, exactPair_node, env_callNode]
  refine returns_ite.mpr ⟨fun h => absurd h (by decide), fun _ => ?_⟩
  refine returns_bind.mpr ((call_read_answered rfl rfl rfl).mpr ?_)
  exact returns_pure.mpr (returns_pure.mpr ⟨rfl, rfl⟩)

/-- The node 20 stores the message, and the node 10 does not get it. -/
theorem exactPair_messageHandler :
    Returns (messageHandler (env losesSuccessors 2 (infoOf (biguintToNodeId 10)).address)
        (fun _ => biguintToNodeId 25) (fun _ => some [1]) 0 (.ok ⟨"", "", [], []⟩))
      (Network.ofIds (exactNode pairIds)) fun response net' => response.status = .ok ∧
        net'.node (infoOf (biguintToNodeId 10)).address
          = exactNode pairIds (biguintToNodeId 10) := by
  refine exactPair_findSuccessor.bind ?_
  rintro _ _ ⟨rfl, rfl⟩
  simp only [returns_bind, returns_safeLock, env_node, exactPair_node, env_callNode]
  refine returns_ite.mpr ⟨fun h => absurd h (by decide), fun _ => ?_⟩
  refine returns_bind.mpr ((returns_call_answered rfl rfl).mpr ?_)
  simp only [handleConnection.eq_def, store, replicateData, returns_bind, returns_safeUpdate,
    env_node, env_setNode]
  have hne : (infoOf (biguintToNodeId 10)).address ≠ (infoOf (biguintToNodeId 20)).address := by
    decide
  refine (getReplicaNodes_finds (.any _) (.any _) _).mono ?_
  rintro nodes net₁ ⟨hsame, -⟩
  obtain rfl := hsame.eq
  -- The replication requests are lost.
  refine (Returns.forM (I := fun net' => net'.node (infoOf (biguintToNodeId 10)).address
    = exactNode pairIds (biguintToNodeId 10)) (fun p _ net' h => ?_) ?_).mono ?_
  · simp only [replicateTo, returns_bind, returns_safeLock, env_node, env_callNode]
    refine returns_ite.mpr ⟨fun _ => returns_pure.mpr h, fun _ => ?_⟩
    exact returns_discard.mpr ((returns_call_lost (Or.inl rfl)).mpr h)
  · rw [setNode_node_of_ne hne]
    exact exactPair_node _
  · exact fun _ net' h => returns_pure.mpr (returns_pure.mpr ⟨rfl, h⟩)

/-- An acknowledged message is not always at its owner. The node 10 of an exact ring of two owns
the key 25. It loses the requests of its lookup, falls back to the node 20, and answers 200 when
that node has stored the message. -/
theorem messageHandler_misses_owner :
    ¬ ∀ (D : Directory) (medium : Medium Unit) (net : Network Unit) (sha1 : List UInt8 → NodeId)
      (serialize : StoredMessage → Option Value) (now : ℕ) (payload : MessagePayload)
      (q key : NodeId), D.ExactRing net → q ∈ D.ids → key = generateKey sha1 payload.«to» →
      key ∉ D.ids → (∃ h ≤ maxRetries, D.OnTarget net.node key ((D.hop net.node key)^[h] q)) →
      Returns (messageHandler (env medium 2 (D.info q).address) sha1 serialize now (.ok payload))
        net fun response net' => response.status = .ok → ∃ serialized,
          serialize ⟨payload.«from», payload.ciphertext, payload.nonce, now⟩ = some serialized ∧
          (D.at' net'.node (owner D.ids key)).valuesAt key =
            (D.at' net.node (owner D.ids key)).valuesAt key ++ [serialized] := by
  intro hall
  have hring := exactRing_ofIds pairIds
  have hat := Directory.at'_ofIds pairIds (exactNode pairIds)
  have hack := hall (Directory.ofIds pairIds) losesSuccessors (Network.ofIds (exactNode pairIds))
    (fun _ => biguintToNodeId 25) (fun _ => some [1]) 0 ⟨"", "", [], []⟩ (biguintToNodeId 10)
    (biguintToNodeId 25) hring (by decide) rfl (by decide) ⟨1, by decide, exactPair_onTarget⟩
  -- The handler acknowledges, yet the state of the owner, node 10, is as before.
  obtain ⟨response, net', -, happend, hok, hnode⟩ := hack.and exactPair_messageHandler
  obtain ⟨serialized, -, hvalues⟩ := happend hok
  have hstate : (Directory.ofIds pairIds).at' net'.node (biguintToNodeId 10)
      = exactNode pairIds (biguintToNodeId 10) := hnode
  have howner' : owner (Directory.ofIds pairIds).ids (biguintToNodeId 25)
      = biguintToNodeId 10 := exactPair_owner
  rw [howner', hstate, hat] at hvalues
  exact List.append_ne_nil_of_right_ne_nil _ (List.cons_ne_nil serialized [])
    (hvalues.symm.trans rfl)

end TaceChat
