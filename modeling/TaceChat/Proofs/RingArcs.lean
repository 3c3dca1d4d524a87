import Mathlib.Algebra.BigOperators.Field
import TaceChat.Library.Arcs
import TaceChat.Proofs.IdNetwork
import TaceChat.Proofs.SizeEstimates

/-!
# The arcs of the id space

`isBetween` compares clockwise distances, so the nodes of a ring cut the ids into the intervals
(n, n'] between neighbours, and every id lies in exactly one of them (`isBetween_partition`). The
local estimate of the network size is the number of the ids divided by the length of such an
interval. The intervals make up all ids, so the estimates of a correct ring are exact together
(`sum_inv_networkSizeEstimate`).
-/

set_option autoImplicit false

namespace TaceChat

open IdCircle

/-! ### Intervals -/

/-- The interval test in terms of numbers: the distance from the start to the id is positive and at
most the distance from the start to the end. -/
theorem isBetween_iff_distance (id start «end» : NodeId) :
    isBetween id start «end» = true ↔
      0 < ((nodeIdToBiguint id : ℤ) - nodeIdToBiguint start) % 2 ^ 160 ∧
        ((nodeIdToBiguint id : ℤ) - nodeIdToBiguint start) % 2 ^ 160 ≤
          ((nodeIdToBiguint «end» : ℤ) - nodeIdToBiguint start) % 2 ^ 160 := by
  have hid : (cw start id : ℤ) = ((nodeIdToBiguint id : ℤ) - nodeIdToBiguint start) % 2 ^ 160 :=
    cast_cw start id
  have hend : (cw start «end» : ℤ) =
      ((nodeIdToBiguint «end» : ℤ) - nodeIdToBiguint start) % 2 ^ 160 := cast_cw start «end»
  rw [isBetween_iff, ← hid, ← hend, Int.natCast_pos, Int.ofNat_le]
  exact Iff.rfl

/-- For all ids, `is_between(id, start, end)` holds exactly when the distance (id - start) mod 2^160
is positive and at most (end - start) mod 2^160. And for two or more distinct ids in clockwise
order, every id lies in exactly one of the intervals from each of them to the next, where the first
follows the last. -/
theorem isBetween_partition :
    (∀ id start «end» : NodeId, isBetween id start «end» = true ↔
      0 < ((nodeIdToBiguint id : ℤ) - nodeIdToBiguint start) % 2 ^ 160 ∧
        ((nodeIdToBiguint id : ℤ) - nodeIdToBiguint start) % 2 ^ 160 ≤
          ((nodeIdToBiguint «end» : ℤ) - nodeIdToBiguint start) % 2 ^ 160) ∧
    ∀ ids : List NodeId, 2 ≤ ids.length → ids.Nodup → InClockwiseOrder ids →
      ∀ id, ∃! k : Fin ids.length, isBetween id (ids.get k) (follower ids k) = true := by
  refine ⟨isBetween_iff_distance, ?_⟩
  intro ids htwo hnodup horder id
  simp only [isBetween_iff]
  exact existsUnique_arc htwo hnodup horder id

/-- `isBetween_partition` for the ids 20, 30 and 10, which pass 0 on the way. -/
theorem isBetween_partition_three :
    ∃! k : Fin 3, isBetween (biguintToNodeId 5)
      ([biguintToNodeId 20, biguintToNodeId 30, biguintToNodeId 10].get k)
      (follower [biguintToNodeId 20, biguintToNodeId 30, biguintToNodeId 10] k) = true := by
  have horder : InClockwiseOrder [biguintToNodeId 20, biguintToNodeId 30, biguintToNodeId 10] := by
    rintro f ⟨⟩
    decide +kernel
  exact isBetween_partition.2 _ (by decide) (by decide +kernel) horder (biguintToNodeId 5)

/-! ### Size estimates -/

/-- The local estimate is the number of the ids divided by the length of the arc to the successor,
which is the whole circle for a node that is its own successor. -/
theorem networkSizeEstimate_eq_arc (n : ChordNode) :
    n.calculateLocalNetworkSizeEstimate =
      (size NodeId : ℚ) / arc n.info.id n.successor.id := by
  have hrange : (if nodeIdToBiguint n.info.id ≤ nodeIdToBiguint n.successor.id then
      nodeIdToBiguint n.successor.id - nodeIdToBiguint n.info.id
    else 2 ^ 160 - nodeIdToBiguint n.info.id + nodeIdToBiguint n.successor.id) =
      cw n.info.id n.successor.id := by
    have hself : nodeIdToBiguint n.info.id < size NodeId := nodeIdToBiguint_lt n.info.id
    have hsize : size NodeId = 2 ^ 160 := rfl
    rw [cw_eq]
    simp only [pos]
    split <;> omega
  unfold ChordNode.calculateLocalNetworkSizeEstimate arc
  simp only [hrange]
  have hpos : (size NodeId : ℚ) ≠ 0 := Nat.cast_ne_zero.mpr (by decide)
  split
  · exact (div_self hpos).symm
  · rfl

/-- In a ring of n distinct ids, n ≥ 1, with exact successors, the reciprocals of the local
estimates add up to 1, so their harmonic mean is n, and every estimate is at least 1. -/
theorem sum_inv_networkSizeEstimate (R : Finset NodeId) (node : NodeId → ChordNode)
    (hR : R.Nonempty) (hid : ∀ id ∈ R, (node id).info.id = id)
    (hsucc : ∀ id ∈ R, (node id).successor.id = next R id) :
    ∑ id ∈ R, 1 / (node id).calculateLocalNetworkSizeEstimate = 1 ∧
      R.card / ∑ id ∈ R, 1 / (node id).calculateLocalNetworkSizeEstimate = R.card ∧
      ∀ id ∈ R, 1 ≤ (node id).calculateLocalNetworkSizeEstimate := by
  have hsum : ∑ id ∈ R, 1 / (node id).calculateLocalNetworkSizeEstimate = 1 := by
    have hpos : (size NodeId : ℚ) ≠ 0 := Nat.cast_ne_zero.mpr (by decide)
    calc ∑ id ∈ R, 1 / (node id).calculateLocalNetworkSizeEstimate
        = ∑ id ∈ R, (arc id (next R id) : ℚ) / size NodeId := by
          refine Finset.sum_congr rfl fun id hmem => ?_
          rw [networkSizeEstimate_eq_arc, hid id hmem, hsucc id hmem, one_div_div]
      _ = ((∑ id ∈ R, arc id (next R id) : ℕ) : ℚ) / size NodeId := by
          rw [← Finset.sum_div, Nat.cast_sum]
      _ = 1 := by rw [sum_arc_next hR, div_self hpos]
  refine ⟨hsum, by rw [hsum, div_one], ?_⟩
  intro id _
  exact one_le_calculateLocalNetworkSizeEstimate (node id)

/-- `sum_inv_networkSizeEstimate` for the ring of the nodes 10 and 20. -/
theorem sum_inv_networkSizeEstimate_pair :
    ∑ id ∈ pairIds,
      1 / (linkedNode otherOfPair (fun _ => none) id).calculateLocalNetworkSizeEstimate = 1 := by
  have hnext : ∀ i ∈ pairIds, otherOfPair i = next pairIds i := by
    intro i hi
    have hmem := next_mem ⟨i, hi⟩ i
    have hne : next pairIds i ≠ i := next_ne_self (by decide +kernel)
    -- Of two ids, the one that is not `i` is the other one.
    simp only [pairIds, Finset.mem_insert, Finset.mem_singleton] at hi hmem
    unfold otherOfPair
    rcases hi with rfl | rfl
    · rw [if_pos rfl]
      exact (hmem.resolve_left hne).symm
    · rw [if_neg (by decide +kernel)]
      exact (hmem.resolve_right hne).symm
  exact (sum_inv_networkSizeEstimate pairIds (linkedNode otherOfPair fun _ => none)
    ⟨_, otherOfPair_mem (biguintToNodeId 10)⟩ (fun _ _ => rfl) hnext).1

end TaceChat
