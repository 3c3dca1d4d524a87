import TaceChat.Proofs.IdNetwork

/-!
# Which lookups find the owner

In a ring with exact successors, `find_successor` returns the owner of an id when the walk of
`find_predecessor` comes on target: when one of its nodes has the id between itself and its
successor. The walk hops along fingers only. It stops at a node without a finger closer to the
id, and after `MAX_RETRIES` hops, and then the successor of that node is returned instead
(`findSuccessor_owner`).
-/

set_option autoImplicit false

namespace TaceChat

open IdCircle Network

namespace Directory

variable (D : Directory)

/-- Every member of `R` has the next member of `R` as its successor. -/
def ExactSuccessors (R : Finset NodeId) (nodes : String → ChordNode) : Prop :=
  ∀ i ∈ R, D.succ nodes i = next R i

/-- Every finger-table entry is the node itself, its initial value, or the owner of its target. -/
def FingersInitialOrExact (nodes : String → ChordNode) : Prop :=
  ∀ i ∈ D.ids, (D.at' nodes i).fingerTable.length = M ∧ ∀ k < M,
    (D.at' nodes i).fingerTable[k]? = some (D.info i) ∨
    (D.at' nodes i).fingerTable[k]? = some (D.info (owner D.ids (addIdPowerOf2 i k)))

/-- The walk to an id comes on target within its hops. -/
def Arrives (nodes : String → ChordNode) (id q : NodeId) : Prop :=
  ∃ k ≤ maxRetries, D.OnTarget nodes id ((D.hop nodes id)^[k] q)

variable {D} {nodes : String → ChordNode}

/-- A walk that does not arrive is nowhere on target. -/
theorem not_arrives {id q : NodeId} : ¬D.Arrives nodes id q ↔
    ∀ k ≤ maxRetries, ¬D.OnTarget nodes id ((D.hop nodes id)^[k] q) := by
  simp [Arrives]

/-- The walk ends on target exactly when it comes on target on its way. -/
theorem onTarget_route_iff {id q : NodeId} :
    D.OnTarget nodes id (D.route nodes id maxRetries q) ↔ D.Arrives nodes id q := by
  refine ⟨fun hon => ?_, D.route_of_onTarget⟩
  obtain ⟨k, hk, heq⟩ : ∃ k ≤ maxRetries,
      D.route nodes id maxRetries q = (D.hop nodes id)^[k] q := D.route_eq_iterate
  exact ⟨k, hk, heq ▸ hon⟩

/-- The successor of a node on target owns the id. -/
theorem owner_of_onTarget (hsucc : D.ExactSuccessors D.ids nodes) {i id : NodeId}
    (hi : i ∈ D.ids) (h : D.OnTarget nodes id i) : owner D.ids id = D.succ nodes i := by
  rw [OnTarget, isBetween_iff, hsucc i hi] at h
  rw [hsucc i hi]
  exact owner_eq_of_inArc hi h

/-- The only node of a ring owns every id. -/
theorem owner_of_card_one (hsucc : D.ExactSuccessors D.ids nodes) {i id : NodeId}
    (hi : i ∈ D.ids) (hone : D.ids.card = 1) : owner D.ids id = D.succ nodes i := by
  obtain ⟨a, ha⟩ := Finset.card_eq_one.mp hone
  rw [hsucc i hi, ha, owner_singleton, next_singleton]

/-- In a ring of more nodes, a node whose successor owns the id is on target. -/
theorem onTarget_of_owner (hsucc : D.ExactSuccessors D.ids nodes) {i id : NodeId}
    (hi : i ∈ D.ids) (hmore : D.ids.card ≠ 1) (h : owner D.ids id = D.succ nodes i) :
    D.OnTarget nodes id i := by
  have hother : next D.ids i ≠ i := next_ne_self (one_lt_card ⟨i, hi⟩ hmore)
  rw [OnTarget, isBetween_iff, hsucc i hi]
  rw [hsucc i hi] at h
  exact inArc_of_owner_eq hi (Ne.symm hother) h

/-- The walk leads to the owner exactly when it comes on target, or the ring has one node. -/
theorem succ_route_eq_owner_iff {net : Network Unit} (hR : D.Routes net)
    (hsucc : D.ExactSuccessors D.ids net.node) {q id : NodeId} (hq : q ∈ D.ids) :
    D.succ net.node (D.route net.node id maxRetries q) = owner D.ids id ↔
      D.ids.card = 1 ∨ D.Arrives net.node id q := by
  have hroute := hR.route_mem id maxRetries hq
  rw [← onTarget_route_iff]
  constructor
  · intro howner
    by_cases hone : D.ids.card = 1
    · exact Or.inl hone
    · exact Or.inr (D.onTarget_of_owner hsucc hroute hone howner.symm)
  · rintro (hone | hon)
    · exact (D.owner_of_card_one hsucc hroute hone).symm
    · exact (D.owner_of_onTarget hsucc hroute hon).symm

end Directory

/-- A lookup in a ring with exact successors, from any member, with any members as fingers. It
returns the owner of the id exactly when the ring has one node, or one of the first
`MAX_RETRIES + 1` nodes of the walk along closest preceding fingers has the id between itself and
its successor. Otherwise the walk moves until it comes to a node without a closer finger or has made
`MAX_RETRIES` hops, and the successor of that node is returned. -/
theorem findSuccessor_owner (D : Directory) (net : Network Unit) (depth : ℕ) (q id : NodeId)
    (hR : D.Routes net) (hsucc : D.ExactSuccessors D.ids net.node) (hq : q ∈ D.ids) :
    Returns (findSuccessor (env reliable (depth + 1) (D.info q).address) id) net
      fun r net' => net' = net ∧
        (r = D.info (owner D.ids id) ↔ D.ids.card = 1 ∨ D.Arrives net.node id q) ∧
        (¬D.Arrives net.node id q → ∃ k ≤ maxRetries,
          (∀ j < k, D.hop net.node id ((D.hop net.node id)^[j] q) ≠ (D.hop net.node id)^[j] q) ∧
          (k = maxRetries ∨
            D.hop net.node id ((D.hop net.node id)^[k] q) = (D.hop net.node id)^[k] q) ∧
          r = D.info (D.succ net.node ((D.hop net.node id)^[k] q))) := by
  refine (Directory.findSuccessor_route (c := 0) reliable_budget hR hq (Nat.le_refl maxRetries)
    (Or.inl rfl) trivial).mono ?_
  rintro r net' ⟨rfl, hsame, -⟩
  refine ⟨hsame.eq, ?_, fun hoff => ?_⟩
  · rw [D.info_inj, D.succ_route_eq_owner_iff hR hsucc hq]
  · obtain ⟨k, hk, hmoves, hend, hroute⟩ := D.route_of_offTarget (Directory.not_arrives.mp hoff)
    exact ⟨k, hk, hmoves, hend, by rw [hroute]⟩

/-! ### The ring of two nodes -/

/-- Each of the two nodes is followed by the other one. -/
theorem pairRing_exactSuccessors :
    (Directory.ofIds pairIds).ExactSuccessors pairIds pairRing.node := fun i hi =>
  (pairRing_succ i).trans (next_pairIds hi).symm

/-- The fingers have their initial value. -/
theorem pairRing_fingers : (Directory.ofIds pairIds).FingersInitialOrExact pairRing.node := by
  intro i _
  have hstate : (Directory.ofIds pairIds).at' pairRing.node i
      = linkedNode otherOfPair (fun i => some (otherOfPair i)) i :=
    Directory.at'_ofIds pairIds _ i
  rw [hstate]
  refine ⟨List.length_replicate, fun k hk => Or.inl ?_⟩
  exact List.getElem?_replicate_of_lt hk

/-- `findSuccessor_owner` for the id 15 at the node 20, whose walk hops to the node 10. -/
theorem findSuccessor_owner_refreshedPair :
    Returns (findSuccessor (env reliable 1 (infoOf (biguintToNodeId 20)).address)
      (biguintToNodeId 15)) refreshedPair
      fun r _ => r = infoOf (owner pairIds (biguintToNodeId 15)) := by
  have hsucc : (Directory.ofIds pairIds).ExactSuccessors pairIds refreshedPair.node := fun i hi =>
    (refreshedPair_succ i).trans (next_pairIds hi).symm
  have hrun := findSuccessor_owner (Directory.ofIds pairIds) refreshedPair 0 (biguintToNodeId 20)
    (biguintToNodeId 15) refreshedPair_serves.routes hsucc (by decide)
  have harrives : (Directory.ofIds pairIds).Arrives refreshedPair.node (biguintToNodeId 15)
      (biguintToNodeId 20) := by
    refine ⟨1, by decide, ?_⟩
    rw [Function.iterate_one, refreshedPair_hop (by decide), Directory.OnTarget, refreshedPair_succ]
    decide
  exact hrun.mono fun r net' h => h.2.1.mpr (Or.inr harrives)

/-- A lookup does not always return the owner: with fingers that are not refreshed, the node 10
answers its own successor 20 for the id 30, which the node 10 owns. -/
theorem findSuccessor_not_owner :
    ¬ ∀ (D : Directory) (net : Network Unit) (q id : NodeId), D.Serves net →
      D.ExactSuccessors D.ids net.node → D.FingersInitialOrExact net.node → q ∈ D.ids →
      Returns (findSuccessor (env reliable 1 (D.info q).address) id) net
        fun r _ => r = D.info (owner D.ids id) := by
  intro hall
  have hrun := hall (Directory.ofIds pairIds) pairRing (biguintToNodeId 10) (biguintToNodeId 30)
    pairRing_serves pairRing_exactSuccessors pairRing_fingers (by decide)
  obtain ⟨r, net', -, howner, hr, -⟩ := hrun.and (Directory.findSuccessor_route (c := 0)
    reliable_budget pairRing_serves.routes (by decide) (Nat.le_refl maxRetries) (Or.inl rfl)
    trivial)
  have hself : owner pairIds (biguintToNodeId 30) = biguintToNodeId 10 := by
    refine owner_eq (by decide) fun c hc => ?_
    simp only [pairIds, Finset.mem_insert, Finset.mem_singleton] at hc
    rcases hc with rfl | rfl <;> decide
  rw [pairRing_route, pairRing_succ] at hr
  have : infoOf (owner pairIds (biguintToNodeId 30)) = infoOf (otherOfPair (biguintToNodeId 10)) :=
    howner.symm.trans hr
  rw [hself] at this
  exact absurd (infoOf_inj this) (by decide)

end TaceChat
