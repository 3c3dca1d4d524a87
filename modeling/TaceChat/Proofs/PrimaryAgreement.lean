import TaceChat.Proofs.Availability
import TaceChat.Proofs.LookupOwner

/-!
# Where two nodes find the same primary node

A node takes every key that lies between its own id and one of its virtual nodes, and asks nobody
who lies in between. Any other key it looks up, and the lookup names the successor of the node where
its walk comes on target, or of the node where the walk gives up.

`primary_agreement_iff` says for which keys two nodes name the same primary node. They do when
neither covers the key and both walks come on target. Where two nodes cover a key with their virtual
nodes, each of them names itself (`primary_disagreement`).
-/

set_option autoImplicit false

namespace TaceChat

open IdCircle Network

namespace Directory

variable {D : Directory} {net : Network Unit} {depth : ℕ} {key i : NodeId}

/-- A ring whose successors and fingers are exact. -/
structure ExactRouting (D : Directory) (net : Network Unit) : Prop extends D.Runs net where
  successor : ∀ i ∈ D.ids, (D.at' net.node i).successor = D.info (next D.ids i)
  fingerTable : ∀ i ∈ D.ids, (D.at' net.node i).fingerTable =
    (List.range M).map fun k => D.info (owner D.ids (addIdPowerOf2 i k))

/-- Exact pointers name members only. -/
theorem ExactRouting.routes (h : D.ExactRouting net) : D.Routes net := by
  refine ⟨h.toRuns, ?_, ?_⟩
  · intro i hi
    rw [h.successor i hi]
    exact known_info (next_mem ⟨i, hi⟩ i)
  · intro i hi x hx
    rw [h.fingerTable i hi] at hx
    obtain ⟨k, -, rfl⟩ := List.mem_map.mp hx
    exact known_info (owner_mem ⟨i, hi⟩ _)

/-- The successors are the next members. -/
theorem ExactRouting.exactSuccessors (h : D.ExactRouting net) :
    D.ExactSuccessors D.ids net.node := by
  intro i hi
  rw [succ, h.successor i hi, D.info_id]

/-- The walk from the node `i` leads to the node `x`: it comes on target and `x` owns the key, or it
gives up after its hops at the node before `x`. -/
def LeadsTo (D : Directory) (nodes : String → ChordNode) (key i x : NodeId) : Prop :=
  (D.Arrives nodes key i ∧ owner D.ids key = x) ∨
    (¬D.Arrives nodes key i ∧ D.succ nodes ((D.hop nodes key)^[maxRetries] i) = x)

/-- The nodes `x` and `y` stand alike to the key: they are one node, or neither covers the key and
their walks both come on target or both give up at one node, or one of them covers the key and the
walk from the other leads to it. -/
def StandAlike (D : Directory) (nodes : String → ChordNode) (key x y : NodeId) : Prop :=
  x = y ∨
    (¬(D.at' nodes x).Covers key ∧ ¬(D.at' nodes y).Covers key ∧
      (D.Arrives nodes key x ∧ D.Arrives nodes key y ∨
        ¬D.Arrives nodes key x ∧ ¬D.Arrives nodes key y ∧
          (D.hop nodes key)^[maxRetries] x = (D.hop nodes key)^[maxRetries] y)) ∨
    ((D.at' nodes x).Covers key ∧ ¬(D.at' nodes y).Covers key ∧ D.LeadsTo nodes key y x) ∨
    (¬(D.at' nodes x).Covers key ∧ (D.at' nodes y).Covers key ∧ D.LeadsTo nodes key x y)

/-- A walk that does not come on target ends where all its hops lead. -/
theorem route_of_not_arrives {nodes : String → ChordNode} (h : ¬D.Arrives nodes key i) :
    D.route nodes key maxRetries i = (D.hop nodes key)^[maxRetries] i := by
  obtain ⟨k, hk, -, hend, hroute⟩ := D.route_of_offTarget (not_arrives.mp h)
  rcases hend with rfl | hstuck
  · exact hroute
  · -- A stuck walk stays where it is.
    obtain ⟨rest, hrest⟩ := Nat.exists_eq_add_of_le hk
    rw [hroute, hrest, Nat.add_comm, Function.iterate_add_apply, Function.iterate_fixed hstuck]

/-- The successor of the node where the walk ends is the node that the walk leads to. -/
theorem ExactRouting.succ_route_eq_iff (hring : D.ExactRouting net) (hi : i ∈ D.ids) (x : NodeId) :
    D.succ net.node (D.route net.node key maxRetries i) = x ↔ D.LeadsTo net.node key i x := by
  by_cases harrives : D.Arrives net.node key i
  · have howner := (succ_route_eq_owner_iff hring.routes hring.exactSuccessors hi).mpr
      (Or.inr harrives)
    simp [LeadsTo, harrives, howner]
  · simp [LeadsTo, harrives, route_of_not_arrives harrives]

/-- In a ring with exact successors no two nodes have one successor. -/
theorem ExactRouting.succ_inj (hring : D.ExactRouting net) {j : NodeId} (hi : i ∈ D.ids)
    (hj : j ∈ D.ids) : D.succ net.node i = D.succ net.node j ↔ i = j := by
  refine ⟨fun h => ?_, congrArg _⟩
  rw [hring.exactSuccessors i hi, hring.exactSuccessors j hj] at h
  rw [← prev_next hi, h, prev_next hj]

/-- Two walks lead to one node when both come on target, or give up at one node. -/
theorem ExactRouting.succ_route_eq_succ_route_iff (hring : D.ExactRouting net) {x y : NodeId}
    (hx : x ∈ D.ids) (hy : y ∈ D.ids) :
    D.succ net.node (D.route net.node key maxRetries x) =
        D.succ net.node (D.route net.node key maxRetries y) ↔
      D.Arrives net.node key x ∧ D.Arrives net.node key y ∨
        ¬D.Arrives net.node key x ∧ ¬D.Arrives net.node key y ∧
          (D.hop net.node key)^[maxRetries] x = (D.hop net.node key)^[maxRetries] y := by
  have hroute := fun i (hi : i ∈ D.ids) => hring.routes.route_mem key maxRetries hi
  rw [hring.succ_inj (hroute x hx) (hroute y hy)]
  have howner : ∀ i ∈ D.ids, D.Arrives net.node key i →
      D.succ net.node (D.route net.node key maxRetries i) = owner D.ids key := fun i hi h =>
    (succ_route_eq_owner_iff hring.routes hring.exactSuccessors hi).mpr (Or.inr h)
  constructor
  · intro heq
    -- Both walks end at one node, which is on target for both or for neither.
    have hboth : D.Arrives net.node key x ↔ D.Arrives net.node key y := by
      rw [← onTarget_route_iff, ← onTarget_route_iff, heq]
    by_cases harrives : D.Arrives net.node key x
    · exact Or.inl ⟨harrives, hboth.mp harrives⟩
    · have hnot := fun h => harrives (hboth.mpr h)
      refine Or.inr ⟨harrives, hnot, ?_⟩
      rwa [route_of_not_arrives harrives, route_of_not_arrives hnot] at heq
  · rintro (⟨hax, hay⟩ | ⟨hax, hay, heq⟩)
    · rw [← hring.succ_inj (hroute x hx) (hroute y hy), howner x hx hax, howner y hy hay]
    · rw [route_of_not_arrives hax, route_of_not_arrives hay, heq]

/-- The primary nodes that two nodes find are one node when the nodes stand alike to the key. -/
theorem ExactRouting.primary_eq_iff (hring : D.ExactRouting net) {x y : NodeId}
    (hx : x ∈ D.ids) (hy : y ∈ D.ids) :
    D.primary net.node key x = D.primary net.node key y ↔ D.StandAlike net.node key x y := by
  rcases eq_or_ne x y with rfl | hne
  · exact ⟨fun _ => Or.inl rfl, fun _ => rfl⟩
  · unfold Directory.primary StandAlike
    by_cases hcx : (D.at' net.node x).Covers key
    · by_cases hcy : (D.at' net.node y).Covers key
      · simp [hcx, hcy, hne]
      · rw [if_pos hcx, if_neg hcy, eq_comm, hring.succ_route_eq_iff hy]
        simp [hcx, hcy, hne]
    · by_cases hcy : (D.at' net.node y).Covers key
      · rw [if_neg hcx, if_pos hcy, hring.succ_route_eq_iff hx]
        simp [hcx, hcy, hne]
      · rw [if_neg hcx, if_neg hcy, hring.succ_route_eq_succ_route_iff hx hy]
        simp [hcx, hcy, hne]

end Directory

/-- In a ring with exact successors and fingers, two nodes name the same primary node for a key
exactly when they stand alike to it: they are one node, or neither covers the key with a virtual
node and their walks both come on target or both give up at one node, or one of them covers the key
and is the node that the walk from the other leads to. -/
theorem primary_agreement_iff (D : Directory) (net : Network Unit) (depth : ℕ) (key x y : NodeId)
    (hring : D.ExactRouting net) (hx : x ∈ D.ids) (hy : y ∈ D.ids) :
    (∃ primary,
      Returns (findSuccessorWithVirtualNodes (env reliable (depth + 1) (D.info x).address) key) net
        (fun r _ => r = primary) ∧
      Returns (findSuccessorWithVirtualNodes (env reliable (depth + 1) (D.info y).address) key) net
        fun r _ => r = primary) ↔
    D.StandAlike net.node key x y := by
  rw [← hring.primary_eq_iff hx hy, ← D.info_inj]
  have hnames : ∀ i ∈ D.ids,
      Returns (findSuccessorWithVirtualNodes (env reliable (depth + 1) (D.info i).address) key) net
        fun r _ => r = D.info (D.primary net.node key i) := fun i hi =>
    (Directory.findSuccessorWithVirtualNodes_primary (c := 0) reliable_budget hring.routes hi
      trivial).mono fun _ _ h => h.1
  constructor
  · rintro ⟨primary, hprimaryX, hprimaryY⟩
    obtain ⟨_, _, -, rfl, hX⟩ := hprimaryX.and (hnames x hx)
    obtain ⟨_, _, -, rfl, hY⟩ := hprimaryY.and (hnames y hy)
    exact hX.symm.trans hY
  · intro heq
    refine ⟨D.info (D.primary net.node key x), hnames x hx, ?_⟩
    rw [heq]
    exact hnames y hy

/-! ### The ring of two nodes -/

/-- A node of the ring of two with exact successors and fingers, all of whose virtual nodes have one
id. -/
noncomputable def nodeWithVirtual (vnodeId : NodeId → NodeId) (i : NodeId) : ChordNode :=
  { exactNode pairIds i with virtualNodes := List.replicate virtualNodesPerNode (vnodeId i) }

/-- The virtual nodes are no pointers. -/
theorem exactRouting_withVirtual (vnodeId : NodeId → NodeId) :
    (Directory.ofIds pairIds).ExactRouting (Network.ofIds (nodeWithVirtual vnodeId)) := by
  have hat := Directory.at'_ofIds pairIds (nodeWithVirtual vnodeId)
  refine ⟨⟨fun i _ => ?_, fun _ _ => rfl⟩, fun i _ => ?_, fun i _ => ?_⟩
  · exact congrArg ChordNode.info (hat i)
  · exact congrArg ChordNode.successor (hat i)
  · exact congrArg ChordNode.fingerTable (hat i)

/-- A key from a node up to its virtual nodes is covered. -/
theorem covers_withVirtual {vnodeId : NodeId → NodeId} {key i : NodeId} :
    ((Directory.ofIds pairIds).at' (Network.ofIds (nodeWithVirtual vnodeId)).node i).Covers key ↔
      isBetween key i (vnodeId i) = true ∨ key = vnodeId i := by
  rw [Directory.at'_ofIds]
  show (List.replicate virtualNodesPerNode (vnodeId i)).any
    (fun v => isBetween key i v || key = v) = true ↔ _
  rw [virtualNodesPerNode, List.any_replicate, if_neg (by decide), Bool.or_eq_true,
    decide_eq_true_eq]

/-- The ring in which the virtual nodes of the node 20 are at 15, and those of the node 10 at 10. -/
noncomputable def virtualRing : Network Unit :=
  Network.ofIds (nodeWithVirtual fun i => if i = biguintToNodeId 20 then biguintToNodeId 15 else i)

/-- `primary_agreement_iff` at the nodes 10 and 20 for the key 15. The node 20 owns it and has its
virtual nodes there. -/
theorem primary_agreement_iff_pair : ∃ primary,
    Returns (findSuccessorWithVirtualNodes (env reliable 1 (infoOf (biguintToNodeId 10)).address)
      (biguintToNodeId 15)) virtualRing (fun r _ => r = primary) ∧
    Returns (findSuccessorWithVirtualNodes (env reliable 1 (infoOf (biguintToNodeId 20)).address)
      (biguintToNodeId 15)) virtualRing fun r _ => r = primary := by
  have hring : (Directory.ofIds pairIds).ExactRouting virtualRing := exactRouting_withVirtual _
  refine (primary_agreement_iff (Directory.ofIds pairIds) virtualRing 0 (biguintToNodeId 15)
    (biguintToNodeId 10) (biguintToNodeId 20) hring (by decide) (by decide)).mpr ?_
  have harrives : (Directory.ofIds pairIds).Arrives virtualRing.node (biguintToNodeId 15)
      (biguintToNodeId 10) := by
    refine ⟨0, Nat.zero_le _, ?_⟩
    rw [Directory.OnTarget, hring.exactSuccessors _ (by decide)]
    show isBetween _ _ (next pairIds (biguintToNodeId 10)) = true
    rw [next_pairIds (by decide)]
    decide
  have howner : owner pairIds (biguintToNodeId 15) = biguintToNodeId 20 := by
    refine owner_eq (by decide) fun c hc => ?_
    simp only [pairIds, Finset.mem_insert, Finset.mem_singleton] at hc
    rcases hc with rfl | rfl <;> decide
  refine Or.inr (Or.inr (Or.inr ⟨fun hcovers => ?_, ?_, Or.inl ⟨harrives, howner⟩⟩))
  · exact absurd (covers_withVirtual.mp hcovers) (by decide)
  · exact covers_withVirtual.mpr (Or.inr rfl)

/-- Nodes do not always agree: with virtual nodes at 30, each of the nodes 10 and 20 names itself
for the key 25. -/
theorem primary_disagreement :
    ¬∀ (D : Directory) (net : Network Unit) (key x y : NodeId), D.ExactRouting net →
      key ∉ D.ids → x ∈ D.ids → y ∈ D.ids →
      ∃ primary, Returns (findSuccessorWithVirtualNodes (env reliable 1 (D.info x).address) key) net
          (fun r _ => r = primary) ∧
        Returns (findSuccessorWithVirtualNodes (env reliable 1 (D.info y).address) key) net
          fun r _ => r = primary := by
  intro hall
  have hring := exactRouting_withVirtual fun _ => biguintToNodeId 30
  obtain ⟨primary, hx, hy⟩ := hall _ _ (biguintToNodeId 25) (biguintToNodeId 10)
    (biguintToNodeId 20) hring (by decide) (by decide) (by decide)
  have hnames : ∀ i ∈ pairIds, isBetween (biguintToNodeId 25) i (biguintToNodeId 30) = true →
      Returns (findSuccessorWithVirtualNodes (env reliable 1 (infoOf i).address)
        (biguintToNodeId 25)) (Network.ofIds (nodeWithVirtual fun _ => biguintToNodeId 30))
        fun r _ => r = infoOf i := by
    intro i hi hbetween
    refine (Directory.findSuccessorWithVirtualNodes_primary (c := 0) reliable_budget hring.routes hi
      trivial).mono ?_
    rintro r _ ⟨rfl, -⟩
    rw [Directory.primary_of_covers (covers_withVirtual.mpr (Or.inl hbetween))]
    rfl
  obtain ⟨_, _, -, rfl, hten⟩ := hx.and (hnames (biguintToNodeId 10) (by decide) (by decide))
  obtain ⟨_, _, -, htwenty, rfl⟩ := hy.and (hnames (biguintToNodeId 20) (by decide) (by decide))
  exact absurd (infoOf_inj (hten.symm.trans htwenty.symm)) (by decide)

end TaceChat
