import TaceChat.Library.Halving
import TaceChat.Proofs.LookupOwner

/-!
# Lookups with refreshed fingers

`fix_fingers` never draws the entry 0, so a refreshed finger table has the node itself there and the
owner of its target in every other entry (`Directory.FingersRefreshed`). In a ring with exact
successors and such fingers, whose ids are not next to each other, every hop of a lookup more than
halves the distance to the predecessor of the id (`Directory.hop_halves`): the last finger that
lies on the way is the owner of a point beyond its middle. So a lookup comes to the predecessor
after at most `log₂ d + 1` hops (`findSuccessor_refreshed`).
-/

set_option autoImplicit false

namespace TaceChat

open IdCircle Network

/-- The target of the finger `k` is at distance `2 ^ k`. -/
theorem cw_addIdPowerOf2 (id : NodeId) {k : ℕ} (hk : k < M) :
    cw id (addIdPowerOf2 id k) = 2 ^ k := by
  have hpow : 2 ^ k < 2 ^ 160 := Nat.pow_lt_pow_right (by omega) hk
  have hid := nodeIdToBiguint_lt id
  rw [cw_eq]
  show (if nodeIdToBiguint id ≤ nodeIdToBiguint (addIdPowerOf2 id k) then
      nodeIdToBiguint (addIdPowerOf2 id k) - nodeIdToBiguint id
    else nodeIdToBiguint (addIdPowerOf2 id k) + 2 ^ 160 - nodeIdToBiguint id) = 2 ^ k
  rw [nodeIdToBiguint_addIdPowerOf2]
  generalize 2 ^ k = step at hpow
  split <;> omega

namespace Directory

variable {D : Directory} {net : Network Unit} {depth : ℕ} {i id : NodeId}

/-- The entry 0 of a finger table is the node itself, and every other entry the owner of its
target. -/
def FingersRefreshed (D : Directory) (nodes : String → ChordNode) : Prop :=
  ∀ i ∈ D.ids, (D.at' nodes i).fingerTable =
    (List.range M).map fun k => D.info (if k = 0 then i else owner D.ids (addIdPowerOf2 i k))

/-- An entry of a refreshed finger table with what stands before and after it. -/
theorem refreshed_split {before after : List NodeInfo} {f : NodeInfo}
    (h : ((List.range M).map fun k =>
      D.info (if k = 0 then i else owner D.ids (addIdPowerOf2 i k))) = before ++ f :: after) :
    before.length < M ∧
      f = D.info (if before.length = 0 then i
        else owner D.ids (addIdPowerOf2 i before.length)) ∧
      ∀ k < M, before.length < k → k ≠ 0 → D.info (owner D.ids (addIdPowerOf2 i k)) ∈ after := by
  have hlength := congrArg List.length h
  simp only [List.length_map, List.length_range, List.length_append, List.length_cons] at hlength
  have hentry : ∀ k < M, (before ++ f :: after)[k]? =
      some (D.info (if k = 0 then i else owner D.ids (addIdPowerOf2 i k))) := by
    intro k hk
    rw [← h, List.getElem?_map, List.getElem?_range hk, Option.map_some]
  refine ⟨by omega, ?_, ?_⟩
  · have hf := hentry before.length (by omega)
    rw [List.getElem?_append_right (Nat.le_refl _), Nat.sub_self, List.getElem?_cons_zero] at hf
    exact Option.some.inj hf
  · intro k hk hlt hne
    have hlater := hentry k hk
    rw [if_neg hne, List.getElem?_append_right (by omega),
      show k - before.length = (k - before.length - 1) + 1 by omega, List.getElem?_cons_succ]
      at hlater
    exact List.mem_of_getElem? hlater

/-- A hop towards the predecessor of an id, from another node, more than halves the distance. -/
theorem hop_halves (hrun : D.Runs net) (hfingers : D.FingersRefreshed net.node)
    (hgap : ∀ a ∈ D.ids, ∀ b ∈ D.ids, cw a b ≠ 1) (hid : id ∉ D.ids) (hi : i ∈ D.ids)
    (hne : i ≠ prev D.ids id) :
    D.hop net.node id i ∈ D.ids ∧ InArc (D.hop net.node id i) i (prev D.ids id) ∧
      2 * cw (D.hop net.node id i) (prev D.ids id) < cw i (prev D.ids id) := by
  have hp : prev D.ids id ∈ D.ids := prev_mem ⟨i, hi⟩ id
  have hpos := cw_pos hne
  have hlt : cw i (prev D.ids id) < 2 ^ 160 := cw_lt i (prev D.ids id)
  -- The finger `j` has the longest step that does not lead beyond the predecessor.
  obtain ⟨j, hle, hlog⟩ : ∃ j, 2 ^ j ≤ cw i (prev D.ids id) ∧ cw i (prev D.ids id) < 2 ^ (j + 1) :=
    ⟨Nat.log 2 _, Nat.pow_log_le_self 2 (by omega), Nat.lt_pow_succ_log_self (by omega) _⟩
  have hj : j < M := (Nat.pow_lt_pow_iff_right (by omega)).mp (Nat.lt_of_le_of_lt hle hlt)
  have hjpos : j ≠ 0 := by
    rintro rfl
    have hnext := hgap i hi _ hp
    omega
  have hown : ∀ k, owner D.ids (addIdPowerOf2 i k) ∈ D.ids := fun k => owner_mem ⟨i, hi⟩ _
  have hon : InArc (owner D.ids (addIdPowerOf2 i j)) i id := by
    rw [inArc_iff_inArc_prev hid hi (hown j)]
    have hstep := cw_addIdPowerOf2 i hj
    exact (inArc_owner hp ⟨by rw [hstep]; exact Nat.two_pow_pos j, by rw [hstep]; exact hle⟩).1
  have hinfo : (D.at' net.node i).info.id = i := by rw [hrun.info i hi, D.info_id]
  have hscan := (D.at' net.node i).closestPrecedingNode_cases id
  have hlength : (D.at' net.node i).fingerTable.length ≤ M := by rw [hfingers i hi]; simp
  rw [List.take_of_length_le hlength, hfingers i hi, hinfo] at hscan
  rcases hscan with ⟨-, hnone⟩ | ⟨before, f, after, htable, hin, hlast, hf⟩
  · refine absurd ?_ (hnone (D.info (owner D.ids (addIdPowerOf2 i j))) ?_)
    · rw [D.info_id]
      exact hon
    · exact List.mem_map.mpr ⟨j, List.mem_range.mpr hj, by rw [if_neg hjpos]⟩
  · obtain ⟨hk, hfinger, hafter⟩ := refreshed_split htable
    -- The finger `j` is on the way, so the one that is found stands at `j` or after it.
    have hjk : j ≤ before.length := by
      by_contra hlater
      refine hlast _ (hafter j hj (by omega) hjpos) ?_
      rw [D.info_id]
      exact hon
    rw [if_neg (by omega)] at hfinger
    have hhop : D.hop net.node id i = owner D.ids (addIdPowerOf2 i before.length) := by
      rw [hop, hf, hfinger, D.info_id]
    rw [hfinger, D.info_id, inArc_iff_inArc_prev hid hi (hown _)] at hin
    rw [hhop]
    refine ⟨hown _, hin, ?_⟩
    have hstep := cw_addIdPowerOf2 i hk
    -- A longer step than the way leads beyond the predecessor.
    have hshort : 2 ^ before.length ≤ cw i (prev D.ids id) := by
      by_contra hlong
      exact not_inArc_owner hi (by rw [hstep]; omega) hin
    refine two_mul_cw_owner_lt hp hstep hshort (Nat.lt_of_lt_of_le hlog ?_)
    exact Nat.pow_le_pow_right (by omega) (by omega)

/-- The predecessor of an id is the only node that has the id between itself and its successor. -/
theorem onTarget_iff (hsucc : D.ExactSuccessors D.ids net.node) (hcard : 1 < D.ids.card)
    (hid : id ∉ D.ids) (hi : i ∈ D.ids) : D.OnTarget net.node id i ↔ i = prev D.ids id := by
  rw [OnTarget, isBetween_iff, hsucc i hi]
  exact inArc_next_iff hid hcard hi

/-- Exact successors and refreshed fingers are infos of members. -/
theorem routes_of_refreshed (hrun : D.Runs net)
    (hsucc : ∀ i ∈ D.ids, (D.at' net.node i).successor = D.info (next D.ids i))
    (hfingers : D.FingersRefreshed net.node) : D.Routes net := by
  refine ⟨hrun, ?_, ?_⟩
  · intro i hi
    rw [hsucc i hi]
    exact known_info (next_mem ⟨i, hi⟩ i)
  · intro i hi x hx
    rw [hfingers i hi] at hx
    obtain ⟨k, -, rfl⟩ := List.mem_map.mp hx
    refine known_info ?_
    split
    · exact hi
    · exact owner_mem ⟨i, hi⟩ _

/-- A walk that comes to the predecessor of the id within its hops ends there. -/
theorem route_eq_prev (hroutes : D.Routes net) (hsucc : D.ExactSuccessors D.ids net.node)
    (hcard : 1 < D.ids.card) (hid : id ∉ D.ids) {q : NodeId} (hq : q ∈ D.ids)
    (hreach : ∃ h ≤ maxRetries, (D.hop net.node id)^[h] q = prev D.ids id) :
    D.route net.node id maxRetries q = prev D.ids id := by
  obtain ⟨h, hle, hend⟩ := hreach
  have hon : D.OnTarget net.node id ((D.hop net.node id)^[h] q) := by
    rw [hend]
    exact (onTarget_iff hsucc hcard hid (prev_mem ⟨q, hq⟩ id)).mpr rfl
  refine (onTarget_iff hsucc hcard hid (hroutes.route_mem id maxRetries hq)).mp ?_
  exact route_of_onTarget ⟨h, hle, hon⟩

end Directory

/-- A ring of two nodes or more with exact successors and refreshed fingers, no two ids of which
differ by 1. Every hop towards an id that is no node's id leads to a node on the way to its
predecessor and leaves less than half of the distance. `log₂ d + 1` hops suffice, and a lookup that
needs at most `MAX_RETRIES` hops returns the predecessor and the owner of the id. -/
theorem findSuccessor_refreshed (D : Directory) (net : Network Unit) (depth : ℕ) (q id : NodeId)
    (hrun : D.Runs net)
    (hsucc : ∀ i ∈ D.ids, (D.at' net.node i).successor = D.info (next D.ids i))
    (hfingers : D.FingersRefreshed net.node) (hcard : 1 < D.ids.card)
    (hgap : ∀ a ∈ D.ids, ∀ b ∈ D.ids, cw a b ≠ 1) (hq : q ∈ D.ids) (hid : id ∉ D.ids) :
    (∀ n ∈ D.ids, ¬D.OnTarget net.node id n →
      D.hop net.node id n ∈ D.ids ∧ InArc (D.hop net.node id n) n (prev D.ids id) ∧
        2 * cw (D.hop net.node id n) (prev D.ids id) < cw n (prev D.ids id)) ∧
    (∃ h ≤ Nat.log 2 (cw q (prev D.ids id)) + 1,
      (D.hop net.node id)^[h] q = prev D.ids id) ∧
    ((∃ h ≤ maxRetries, (D.hop net.node id)^[h] q = prev D.ids id) →
      Returns (findPredecessor (env reliable (depth + 1) (D.info q).address) id) net
        (fun r net' => net' = net ∧ r = D.info (prev D.ids id)) ∧
      Returns (findSuccessor (env reliable (depth + 1) (D.info q).address) id) net
        fun r net' => net' = net ∧ r = D.info (owner D.ids id)) := by
  have hroutes := Directory.routes_of_refreshed hrun hsucc hfingers
  have hexact : D.ExactSuccessors D.ids net.node := by
    intro i hi
    rw [Directory.succ, hsucc i hi, D.info_id]
  refine ⟨?_, ?_, ?_⟩
  · intro n hn hoff
    refine Directory.hop_halves hrun hfingers hgap hid hn ?_
    rwa [Directory.onTarget_iff hexact hcard hid hn] at hoff
  · exact exists_iterate_eq_of_halves
      (fun n hn hne => (Directory.hop_halves hrun hfingers hgap hid hn hne).1)
      (fun n hn hne => (Directory.hop_halves hrun hfingers hgap hid hn hne).2.2)
      (fun n _ hzero => cw_eq_zero.mp hzero) q hq
  · intro hreach
    have hend := Directory.route_eq_prev hroutes hexact hcard hid hq hreach
    have hself : (net.node (D.info q).address).info = D.info q := hrun.info q hq
    constructor
    · simp only [findPredecessor, returns_bind, returns_safeLock, env_node, hself]
      refine (Directory.findPredecessorLoop_route (c := 0) reliable_budget hq maxRetries hroutes hq
        (Nat.le_refl maxRetries) (Or.inl rfl) trivial).mono ?_
      rintro r net' ⟨rfl, hsame, -⟩
      exact ⟨hsame.eq, by rw [hend]⟩
    · refine (Directory.findSuccessor_route (c := 0) reliable_budget hroutes hq
        (Nat.le_refl maxRetries) (Or.inl rfl) trivial).mono ?_
      rintro r net' ⟨rfl, hsame, -⟩
      refine ⟨hsame.eq, ?_⟩
      rw [hend, hexact _ (prev_mem ⟨q, hq⟩ id), next_prev_of_notMem hid ⟨q, hq⟩,
        owner_eq_next hid ⟨q, hq⟩]

/-! ### The ring of two nodes -/

/-- A node of the ring of two with refreshed fingers. -/
noncomputable def refreshedNode (i : NodeId) : ChordNode :=
  { linkedNode otherOfPair (fun i => some (otherOfPair i)) i with
    fingerTable := (List.range M).map fun k =>
      infoOf (if k = 0 then i else owner pairIds (addIdPowerOf2 i k)) }

/-- `findSuccessor_refreshed` at the node 10 for the id 25, whose predecessor is the node 20. -/
theorem findSuccessor_refreshed_pair :
    Returns (findSuccessor (env reliable 1 (infoOf (biguintToNodeId 10)).address)
      (biguintToNodeId 25)) (Network.ofIds refreshedNode)
      fun r _ => r = infoOf (owner pairIds (biguintToNodeId 25)) := by
  have hat : ∀ i, (Directory.ofIds pairIds).at' (Network.ofIds refreshedNode).node i =
      refreshedNode i := Directory.at'_ofIds pairIds refreshedNode
  have hrun : (Directory.ofIds pairIds).Runs (Network.ofIds refreshedNode) :=
    ⟨fun i _ => congrArg ChordNode.info (hat i), fun _ _ => rfl⟩
  have hgap : ∀ a ∈ pairIds, ∀ b ∈ pairIds, cw a b ≠ 1 := by
    intro a ha b hb
    simp only [pairIds, Finset.mem_insert, Finset.mem_singleton] at ha hb
    rcases ha with rfl | rfl <;> rcases hb with rfl | rfl <;> decide
  obtain ⟨-, ⟨h, hle, hreach⟩, hlookup⟩ := findSuccessor_refreshed (Directory.ofIds pairIds)
    (Network.ofIds refreshedNode) 0 (biguintToNodeId 10) (biguintToNodeId 25) hrun
    (fun i hi => (congrArg ChordNode.successor (hat i)).trans
      (congrArg infoOf (next_pairIds hi).symm))
    (fun i _ => congrArg ChordNode.fingerTable (hat i)) (by decide) hgap (by decide) (by decide)
  refine (hlookup ⟨h, Nat.le_trans hle ?_, hreach⟩).2.mono fun r _ hr => hr.2
  -- The distance is 0 or 10.
  have hmem : prev pairIds (biguintToNodeId 25) ∈ pairIds := prev_mem (by decide) _
  simp only [pairIds, Finset.mem_insert, Finset.mem_singleton] at hmem
  rcases hmem with hprev | hprev
  · exact (congrArg (fun p => Nat.log 2 (cw (biguintToNodeId 10) p) + 1) hprev).trans_le (by decide)
  · exact (congrArg (fun p => Nat.log 2 (cw (biguintToNodeId 10) p) + 1) hprev).trans_le (by decide)

end TaceChat
