import TaceChat.Proofs.Acknowledged
import TaceChat.Proofs.Copies

/-!
# How often a value is held after a run

A run is a sequence of client stores, joins and background tasks at the nodes of a directory, in
any order and over any medium. `Directory.History` is the states that runs reach, with a tally for
a key `k` and a value `v`: the client stores of `v` under `k`, the joins and background tasks that
changed data under `k` (`handovers`), and among the tasks those that recovered data (`recoveries`).

`copies_le_tally` bounds the copies of the value at every node by the tally. A value that no client
has stored is nowhere, and as long as no data is handed over, no node has more copies than clients
have stored. A hand-over can multiply a value (`copies_exceed_stores`).
-/

set_option autoImplicit false

namespace TaceChat

open Network

/-- What happens at a node in a run. -/
inductive Op
  | store (key : NodeId) (value : Value)
  | join (bootstrap : Option NodeId)
  | upkeep (task : Upkeep)

namespace Op

/-- The code of an operation at a node. -/
def run {σ : Type} (D : Directory) (env : NodeEnv σ) : Op → NodeM σ Unit
  | .store key value => TaceChat.store env key value
  | .join bootstrap => TaceChat.join env (bootstrap.map fun b => (D.info b).address)
  | .upkeep task => task.run env

/-- A node joins through a member only. -/
def WithMembers (D : Directory) : Op → Prop
  | .join bootstrap => ∀ b ∈ bootstrap, b ∈ D.ids
  | _ => True

end Op

/-- What a run has done for one key and one value. -/
structure Tally where
  stores : ℕ
  handovers : ℕ
  recoveries : ℕ

/-- The bound on the copies of the value at a node. -/
def Tally.bound (t : Tally) : ℕ :=
  t.stores * (2 ^ t.handovers * (recoverySources + 1) ^ t.recoveries)

/-- The tally after an operation. A join or a task counts when it has changed data under the key. -/
def Tally.add (k : NodeId) (v : Value) (changed : Prop) [Decidable changed] (t : Tally) :
    Op → Tally
  | .store key value =>
    if key = k ∧ value = v then { t with stores := t.stores + 1 } else t
  | .join _ => if changed then { t with handovers := t.handovers + 1 } else t
  | .upkeep .stabilize => if changed then { t with handovers := t.handovers + 1 } else t
  | .upkeep .checkPredecessor =>
    if changed then { t with recoveries := t.recoveries + 1 } else t
  | .upkeep (.fixFingers _) => t

namespace Tally

variable {t : Tally}

/-- One more store leaves room for one more copy. -/
theorem bound_store (t : Tally) :
    t.bound + 1 ≤ { t with stores := t.stores + 1 : Tally }.bound := by
  have hpos : 0 < 2 ^ t.handovers * (recoverySources + 1) ^ t.recoveries :=
    Nat.mul_pos (Nat.pow_pos (by omega)) (Nat.pow_pos (by omega))
  simp only [bound, Nat.succ_mul]
  omega

/-- A handover doubles the bound. -/
theorem bound_handover (t : Tally) :
    2 * t.bound = { t with handovers := t.handovers + 1 : Tally }.bound := by
  simp only [bound, Nat.pow_succ]
  ring

/-- A recovery has as many sources as candidates, beside the node itself. -/
theorem bound_recovery (t : Tally) :
    (recoverySources + 1) * t.bound = { t with recoveries := t.recoveries + 1 : Tally }.bound := by
  simp only [bound, Nat.pow_succ]
  ring

end Tally

namespace Directory

section
variable (D : Directory)

/-- Some node has other values under the key than before. -/
def ChangedAt (k : NodeId) (nodes nodes' : String → ChordNode) : Prop :=
  ∃ i ∈ D.ids, (D.at' nodes' i).valuesAt k ≠ (D.at' nodes i).valuesAt k

/-- It can be computed whether data under the key has changed. -/
instance (k : NodeId) (nodes nodes' : String → ChordNode) :
    Decidable (D.ChangedAt k nodes nodes') :=
  inferInstanceAs (Decidable (∃ i ∈ D.ids, _))

/-- The states that runs from `start` reach, with their tallies. -/
inductive History {φ : Type} (medium : Medium φ) (depth : ℕ) (k : NodeId) (v : Value)
    (start : Network φ) : Network φ → Tally → Prop
  | start : History medium depth k v start start ⟨0, 0, 0⟩
  | step {net net' : Network φ} {t : Tally} {i : NodeId} {op : Op}
      (before : History medium depth k v start net t) (member : i ∈ D.ids)
      (members : op.WithMembers D)
      (returns : Returns (op.run D (env medium (depth + 3) (D.info i).address)) net
        fun _ s => s = net') :
      History medium depth k v start net' (t.add k v (D.ChangedAt k net.node net'.node) op)

end

variable {D : Directory} {φ : Type} {medium : Medium φ} {depth : ℕ} {net net' : Network φ}
  {k : NodeId} {v : Value} {c : ℕ} {i : NodeId}

/-- Where no data under the key has changed, the bound is the one of before. -/
theorem Bounded.of_not_changedAt {c' : ℕ} (h' : D.Bounded k v c' net') (h : D.Bounded k v c net)
    (hchanged : ¬ D.ChangedAt k net.node net'.node) : D.Bounded k v c net' := by
  refine ⟨h'.toSized, fun i hi => ?_⟩
  have hsame : (D.at' net'.node i).valuesAt k = (D.at' net.node i).valuesAt k :=
    not_not.mp fun hne => hchanged ⟨i, hi, hne⟩
  rw [ChordNode.copies, hsame]
  exact h.copies i hi

/-- One operation keeps the bound of the tally. -/
theorem Bounded.step {t : Tally} (h : D.Bounded k v t.bound net) (hi : i ∈ D.ids) {op : Op}
    (hop : op.WithMembers D)
    (hrun : Returns (op.run D (env medium (depth + 3) (D.info i).address)) net
      fun _ s => s = net') :
    D.Bounded k v (t.add k v (D.ChangedAt k net.node net'.node) op).bound net' := by
  -- A task that leaves the key alone at every node is not counted.
  have hquiet : ∀ {c' : ℕ} {t' : Tally}, D.Bounded k v c' net' → c' = t'.bound →
      D.Bounded k v (if D.ChangedAt k net.node net'.node then t' else t).bound net' := by
    rintro _ t' h' rfl
    split
    · exact h'
    · rename_i hchanged
      exact h'.of_not_changedAt h hchanged
  match op with
  | .store key value =>
    obtain ⟨_, _, -, rfl, h'⟩ := hrun.and (h.store hi key value)
    refine h'.mono ?_
    by_cases heq : key = k ∧ value = v
    · rw [Tally.add, if_pos heq, if_pos heq.1, heq.2, List.count_singleton_self]
      exact t.bound_store
    · have hzero : (if key = k then [value].count v else 0) = 0 := by
        split
        · rename_i hkey
          exact List.count_eq_zero.mpr fun hmem => heq ⟨hkey, (List.mem_singleton.mp hmem).symm⟩
        · rfl
      rw [Tally.add, if_neg heq, hzero, Nat.add_zero]
  | .join bootstrap =>
    obtain ⟨_, _, -, rfl, h'⟩ := hrun.and (h.join hi bootstrap hop)
    rw [Tally.add]
    exact hquiet h' t.bound_handover
  | .upkeep .stabilize =>
    obtain ⟨_, _, -, rfl, h'⟩ := hrun.and (h.stabilize hi)
    rw [Tally.add]
    exact hquiet h' t.bound_handover
  | .upkeep (.fixFingers finger) =>
    obtain ⟨_, _, -, rfl, h'⟩ := hrun.and (h.fixFingers hi finger)
    exact h'
  | .upkeep .checkPredecessor =>
    obtain ⟨_, _, -, rfl, h'⟩ := hrun.and (h.checkPredecessor hi)
    rw [Tally.add]
    exact hquiet h' t.bound_recovery

/-- A run keeps the bound of its tally. -/
theorem History.bounded {start : Network φ} (hstart : D.Sized start)
    (hempty : ∀ i ∈ D.ids, (D.at' start.node i).data = ∅) {t : Tally}
    (h : D.History medium depth k v start net t) : D.Bounded k v t.bound net := by
  induction h with
  | start =>
    refine ⟨hstart, fun i hi => ?_⟩
    rw [ChordNode.copies, ChordNode.valuesAt, hempty i hi]
    exact Nat.zero_le _
  | step _ hi hop hrun ih => exact ih.step hi hop hrun

end Directory

/-- In every run of client stores, joins and background tasks, whatever calls are lost, a node
holds a value under a key at most as often as clients have stored it there, doubled for each join
or stabilization that has changed data under the key, and multiplied by the number of nodes that a
recovery asks, plus one, for each recovery that has. -/
theorem copies_le_tally {φ : Type} (D : Directory) (medium : Medium φ) (depth : ℕ)
    (start net : Network φ) (k : NodeId) (v : Value) (t : Tally) (i : NodeId)
    (hstart : D.Sized start) (hempty : ∀ i ∈ D.ids, (D.at' start.node i).data = ∅)
    (h : D.History medium depth k v start net t) (hi : i ∈ D.ids) :
    (D.at' net.node i).copies k v ≤
      t.stores * (2 ^ t.handovers * (recoverySources + 1) ^ t.recoveries) :=
  (h.bounded hstart hempty).copies i hi

/-! ### A join that hands a value back -/

/-- The nodes 10 and 20, each alone. -/
def twoAlone : Network Unit := Network.ofIds (linkedNode id fun _ => none)

/-- Both nodes know nobody else. -/
theorem twoAlone_serves (ids : Finset NodeId) : (Directory.ofIds ids).Serves twoAlone :=
  Directory.serves_linked (fun _ hi => hi) fun _ _ _ hp => by cases hp

/-- Their tables have the sizes that `ChordNode::new` gives them. -/
theorem twoAlone_sized (ids : Finset NodeId) : (Directory.ofIds ids).Sized twoAlone where
  toServes := twoAlone_serves ids
  successorList i _ := by
    rw [twoAlone, Directory.at'_ofIds]
    exact List.length_replicate.le
  fingerTable i _ := by
    rw [twoAlone, Directory.at'_ofIds]
    exact List.length_replicate.le

/-- The node 10 has stored a value under the key 5. -/
def storedAlone : Network Unit :=
  twoAlone.setNode (addressOf (biguintToNodeId 10))
    ((twoAlone.node (addressOf (biguintToNodeId 10))).extendKey (biguintToNodeId 5) [[1]])

/-- A node that is alone stores for itself only. -/
theorem twoAlone_store :
    Returns (store (env reliable 3 (infoOf (biguintToNodeId 10)).address) (biguintToNodeId 5) [1])
      twoAlone fun _ net' => net' = storedAlone := by
  have hself := Finset.mem_singleton_self (biguintToNodeId 10)
  refine (Directory.store_reliable (twoAlone_serves {biguintToNodeId 10}) hself
    (biguintToNodeId 5) [1]).mono ?_
  rintro - ⟨node, listening, _⟩ ⟨rfl, rfl⟩
  have hnobody : replicaAddresses (biguintToNodeId 10)
      ((Directory.ofIds {biguintToNodeId 10}).replicaNodes twoAlone.node (biguintToNodeId 5)
        (biguintToNodeId 10)) = [] := by
    rw [replicaAddresses, List.map_eq_nil_iff, List.filter_eq_nil_iff]
    intro x hx
    have hknown := (twoAlone_serves {biguintToNodeId 10}).replicaNodes_known hself x hx
    simpa using Finset.mem_singleton.mp hknown.mem
  rw [hnobody]
  rfl

/-- The value is in no table. -/
theorem storedAlone_serves (ids : Finset NodeId) : (Directory.ofIds ids).Serves storedAlone :=
  (twoAlone_serves ids).changesData (P := fun _ => True)
    ⟨rfl, .appendAt trivial [[1]] twoAlone.node _⟩

/-- What the node 10 holds. -/
theorem storedAlone_node : storedAlone.node (infoOf (biguintToNodeId 10)).address =
    (linkedNode id (fun _ => none) (biguintToNodeId 10)).extendKey (biguintToNodeId 5) [[1]] := by
  have hnode : twoAlone.node (addressOf (biguintToNodeId 10))
      = linkedNode id (fun _ => none) (biguintToNodeId 10) :=
    congrArg (linkedNode id fun _ => none) (idOf_addressOf _)
  refine setNode_node_self.trans ?_
  rw [hnode]

/-- The node 20 finds the node 10 as its successor. -/
theorem storedAlone_findJoinSuccessor :
    Returns (findJoinSuccessor (env reliable 3 (infoOf (biguintToNodeId 20)).address)
        (infoOf (biguintToNodeId 10)).address) storedAlone fun r net' =>
      r = some (infoOf (biguintToNodeId 10)) ∧ net' = storedAlone := by
  have hself := Finset.mem_singleton_self (biguintToNodeId 10)
  have hinfo : (storedAlone.node (infoOf (biguintToNodeId 20)).address).info
      = infoOf (biguintToNodeId 20) := (storedAlone_serves pairIds).info _ (by decide)
  have hhop : (Directory.ofIds {biguintToNodeId 10}).hop storedAlone.node (biguintToNodeId 20)
      (biguintToNodeId 10) = biguintToNodeId 10 := by
    have hclosest : (storedAlone.node (infoOf (biguintToNodeId 10)).address).closestPrecedingNode
        (biguintToNodeId 20) = infoOf (biguintToNodeId 10) := by
      rw [storedAlone_node]
      exact closestPrecedingNode_unrefreshed (k := M) rfl _
    exact congrArg NodeInfo.id hclosest
  have hsucc : (Directory.ofIds {biguintToNodeId 10}).succ storedAlone.node (biguintToNodeId 10)
      = biguintToNodeId 10 := by
    have h := congrArg (fun n : ChordNode => n.successor.id) storedAlone_node
    exact h
  simp only [findJoinSuccessor, returns_bind, returns_safeLock, env_node, env_callNode, hinfo]
  refine (returns_call_reliable rfl).mpr ?_
  simp only [handleConnection.eq_def, returns_bind, returns_pure]
  refine (Directory.findSuccessor_of_hop_self (storedAlone_serves {biguintToNodeId 10}) hself
    hhop).mono ?_
  rintro _ _ ⟨rfl, rfl⟩
  rw [hsucc]
  refine returns_ite.mpr ⟨fun h => absurd h (by decide), fun _ => ?_⟩
  exact returns_pure.mpr ⟨rfl, rfl⟩

/-- The node 20 has found its successor. -/
def joinedNext : Network Unit :=
  storedAlone.setNode (infoOf (biguintToNodeId 20)).address
    { linkedNode id (fun _ => none) (biguintToNodeId 20) with
      successor := infoOf (biguintToNodeId 10) }

/-- The two nodes have two addresses. -/
theorem addresses_ne :
    (infoOf (biguintToNodeId 10)).address ≠ (infoOf (biguintToNodeId 20)).address := by
  decide

/-- The node 20 has not changed. -/
theorem storedAlone_other : storedAlone.node (infoOf (biguintToNodeId 20)).address =
    linkedNode id (fun _ => none) (biguintToNodeId 20) :=
  (setNode_node_of_ne addresses_ne.symm).trans
    (congrArg (linkedNode id fun _ => none) (idOf_addressOf _))

/-- The node 10 still holds its value only. -/
theorem joinedNext_node : joinedNext.node (infoOf (biguintToNodeId 10)).address =
    (linkedNode id (fun _ => none) (biguintToNodeId 10)).extendKey (biguintToNodeId 5) [[1]] :=
  (setNode_node_of_ne addresses_ne).trans storedAlone_node

/-- The node 20 holds its successor and no data. -/
theorem joinedNext_other : (Directory.ofIds pairIds).at' joinedNext.node (biguintToNodeId 20) =
    { linkedNode id (fun _ => none) (biguintToNodeId 20) with
      successor := infoOf (biguintToNodeId 10) } :=
  setNode_node_self

/-- The new successor is one of the two nodes. -/
theorem joinedNext_serves : (Directory.ofIds pairIds).Serves joinedNext := by
  have h20 : biguintToNodeId 20 ∈ (Directory.ofIds pairIds).ids := by decide
  have hS := storedAlone_serves pairIds
  have hreports : Reports (Directory.ofIds pairIds).Known
      (storedAlone.node (infoOf (biguintToNodeId 20)).address) := hS.reports _ h20
  rw [storedAlone_other] at hreports
  obtain ⟨hinfo, -, hlist, hpred, hfinger⟩ := hreports
  exact hS.setNode h20 rfl ⟨hinfo, ⟨biguintToNodeId 10, by decide, rfl⟩, hlist, hpred, hfinger⟩

/-- The node 10 is the primary node of the key for the node 20. -/
theorem joinedNext_primary : (Directory.ofIds pairIds).primary joinedNext.node (biguintToNodeId 5)
    (biguintToNodeId 20) = biguintToNodeId 10 := by
  have hcovers : ¬ ((Directory.ofIds pairIds).at' joinedNext.node (biguintToNodeId 20)).Covers
      (biguintToNodeId 5) := by
    rw [joinedNext_other]
    decide
  have hsucc : (Directory.ofIds pairIds).succ joinedNext.node (biguintToNodeId 20)
      = biguintToNodeId 10 := by
    rw [Directory.succ, joinedNext_other]
    rfl
  have hon : (Directory.ofIds pairIds).OnTarget joinedNext.node (biguintToNodeId 5)
      (biguintToNodeId 20) := by
    rw [Directory.OnTarget, hsucc]
    decide
  rw [Directory.primary, if_neg hcovers, maxRetries, Directory.route, if_pos (Or.inl hon), hsucc]

/-- The node 20 replicates what it stores back to the node 10. -/
theorem joinedNext_store :
    Returns (store (env reliable 3 (infoOf (biguintToNodeId 20)).address) (biguintToNodeId 5) [1])
      joinedNext fun _ net' => ((Directory.ofIds pairIds).at' net'.node (biguintToNodeId 10)).copies
        (biguintToNodeId 5) [1] = 2 := by
  have h20 : biguintToNodeId 20 ∈ pairIds := by decide
  refine (Directory.store_reliable joinedNext_serves h20 (biguintToNodeId 5) [1]).mono ?_
  rintro - net' ⟨-, hnode⟩
  have hmem : (infoOf (biguintToNodeId 10)).address ∈ replicaAddresses (biguintToNodeId 20)
      ((Directory.ofIds pairIds).replicaNodes joinedNext.node (biguintToNodeId 5)
        (biguintToNodeId 20)) := by
    refine List.mem_map.mpr ⟨infoOf (biguintToNodeId 10), List.mem_filter.mpr ⟨?_, by decide⟩, rfl⟩
    rw [Directory.replicaNodes, joinedNext_primary]
    exact List.mem_cons_self
  have hnodup : (replicaAddresses (biguintToNodeId 20) ((Directory.ofIds pairIds).replicaNodes
      joinedNext.node (biguintToNodeId 5) (biguintToNodeId 20))).Nodup :=
    joinedNext_serves.replicaAddresses_nodup h20
      (Directory.known_info (joinedNext_serves.primary_mem h20))
  have hback : net'.node (infoOf (biguintToNodeId 10)).address = (joinedNext.node
      (infoOf (biguintToNodeId 10)).address).extendKey (biguintToNodeId 5) [[1]] := by
    rw [hnode, foldl_appendAt_of_mem _ hnodup hmem, appendAt]
    exact congrArg (ChordNode.extendKey · _ _) (Function.update_of_ne addresses_ne _ _)
  show (net'.node (infoOf (biguintToNodeId 10)).address).copies _ _ = 2
  rw [hback, joinedNext_node, ChordNode.copies_extendKey, ChordNode.copies_extendKey]
  decide

/-- The node 20 pulls the value when it joins. -/
theorem storedAlone_join :
    Returns (join (env reliable 3 (infoOf (biguintToNodeId 20)).address)
        (some (infoOf (biguintToNodeId 10)).address)) storedAlone fun _ net' =>
      ((Directory.ofIds pairIds).at' net'.node (biguintToNodeId 10)).copies (biguintToNodeId 5) [1]
        = 2 := by
  have hdata : ((linkedNode id (fun _ => none) (biguintToNodeId 10)).extendKey
      (biguintToNodeId 5) [[1]]).getDataRange (biguintToNodeId 20) (biguintToNodeId 10)
        = [(biguintToNodeId 5, [[1]])] := by
    decide
  simp only [join, returns_bind]
  refine storedAlone_findJoinSuccessor.mono ?_
  rintro _ _ ⟨rfl, rfl⟩
  simp only [returns_bind, returns_safeUpdate, env_node, env_setNode, storedAlone_other]
  show Returns (pullData (env reliable 3 (infoOf (biguintToNodeId 20)).address)
    (infoOf (biguintToNodeId 10))) joinedNext _
  have hself : (joinedNext.node (infoOf (biguintToNodeId 20)).address).info.id
      = biguintToNodeId 20 := congrArg (fun n : ChordNode => n.info.id) joinedNext_other
  simp only [pullData, returns_bind, returns_safeLock, env_node, env_callNode, hself]
  refine (call_read_answered rfl rfl rfl).mpr ?_
  rw [joinedNext_node]
  show Returns (forEachValue (((linkedNode id (fun _ => none) (biguintToNodeId 10)).extendKey
    (biguintToNodeId 5) [[1]]).getDataRange (biguintToNodeId 20) (biguintToNodeId 10)) _)
    joinedNext _
  rw [hdata, forEachValue, List.forM_cons, List.forM_cons, List.forM_nil, List.forM_nil]
  simp only [returns_bind, returns_pure]
  exact joinedNext_store

/-- The run that stores the value once. -/
theorem storedAlone_history : (Directory.ofIds pairIds).History reliable 0 (biguintToNodeId 5) [1]
    twoAlone storedAlone ⟨1, 0, 0⟩ := by
  have hop : (Op.store (biguintToNodeId 5) [1]).WithMembers (Directory.ofIds pairIds) := trivial
  exact .step (i := biguintToNodeId 10) .start (by decide) hop twoAlone_store

/-- The run goes on with a join, which hands the value over. -/
theorem joined_history : ∃ net, (Directory.ofIds pairIds).History reliable 0 (biguintToNodeId 5) [1]
    twoAlone net ⟨1, 1, 0⟩ ∧ ((Directory.ofIds pairIds).at' net.node (biguintToNodeId 10)).copies
      (biguintToNodeId 5) [1] = 2 := by
  obtain ⟨_, net, hrun, hcopies⟩ := storedAlone_join
  have hop : (Op.join (some (biguintToNodeId 10))).WithMembers (Directory.ofIds pairIds) := by
    rintro b ⟨⟩
    decide
  have hhistory : (Directory.ofIds pairIds).History reliable 0 (biguintToNodeId 5) [1] twoAlone net
      _ := .step (i := biguintToNodeId 20) storedAlone_history (by decide) hop ⟨_, net, hrun, rfl⟩
  have hchanged : (Directory.ofIds pairIds).ChangedAt (biguintToNodeId 5) storedAlone.node
      net.node := by
    refine ⟨biguintToNodeId 10, by decide, fun heq => ?_⟩
    -- There was one copy before the join.
    have hbefore : ((Directory.ofIds pairIds).at' storedAlone.node (biguintToNodeId 10)).copies
        (biguintToNodeId 5) [1] = 1 := by
      rw [Directory.at', show ((Directory.ofIds pairIds).info (biguintToNodeId 10)).address =
        (infoOf (biguintToNodeId 10)).address from rfl, storedAlone_node]
      decide
    rw [ChordNode.copies, heq, ← ChordNode.copies, hbefore] at hcopies
    cases hcopies
  rw [Tally.add, if_pos hchanged] at hhistory
  exact ⟨net, hhistory, hcopies⟩

/-- `copies_le_tally` after one store and one join that hands the value over: two copies at the node
that has stored it. -/
theorem copies_le_tally_joined :
    ∃ net : Network Unit, (Directory.ofIds pairIds).History reliable 0 (biguintToNodeId 5) [1]
        twoAlone net ⟨1, 1, 0⟩ ∧
      ((Directory.ofIds pairIds).at' net.node (biguintToNodeId 10)).copies
        (biguintToNodeId 5) [1] = 2 ∧
      ((Directory.ofIds pairIds).at' net.node (biguintToNodeId 10)).copies (biguintToNodeId 5) [1] ≤
        1 * (2 ^ 1 * (recoverySources + 1) ^ 0) := by
  obtain ⟨net, hhistory, hcopies⟩ := joined_history
  refine ⟨net, hhistory, hcopies, ?_⟩
  exact copies_le_tally (Directory.ofIds pairIds) reliable 0 twoAlone net (biguintToNodeId 5) [1]
    ⟨1, 1, 0⟩ (biguintToNodeId 10) (twoAlone_sized pairIds)
    (fun i _ => congrArg ChordNode.data (Directory.at'_ofIds pairIds _ i)) hhistory (by decide)

/-- A node can have more copies of a value than clients have stored: when the node 20 joins, the
node 10 gets back a second copy of the only value it holds. -/
theorem copies_exceed_stores :
    ¬ ∀ (D : Directory) (medium : Medium Unit) (depth : ℕ) (start net : Network Unit) (k : NodeId)
      (v : Value) (t : Tally) (i : NodeId), D.Sized start →
      (∀ i ∈ D.ids, (D.at' start.node i).data = ∅) → D.History medium depth k v start net t →
      i ∈ D.ids → (D.at' net.node i).copies k v ≤ t.stores := by
  intro hall
  obtain ⟨net, hhistory, hcopies⟩ := joined_history
  have hbound := hall (Directory.ofIds pairIds) reliable 0 twoAlone net (biguintToNodeId 5) [1]
    ⟨1, 1, 0⟩ (biguintToNodeId 10) (twoAlone_sized pairIds)
    (fun i _ => congrArg ChordNode.data (Directory.at'_ofIds pairIds _ i)) hhistory (by decide)
  rw [hcopies] at hbound
  exact absurd hbound (by decide)

end TaceChat
