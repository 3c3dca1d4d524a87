import TaceChat.Proofs.Directory

/-!
# Networks built from ids

A network needs an address for each node. `addressOf` spells an id as a string of twenty
characters and `idOf` reads it back, so a state for each id is a network (`Network.ofIds`), and a
finite set of ids is a directory (`Directory.ofIds`).

`nodeIdToBiguint_biguintToNodeId` gives the ids of such a network by their numbers. `pairRing` is
the correct ring of the two nodes 10 and 20.
-/

set_option autoImplicit false

namespace TaceChat

/-! ### Ids by number -/

/-- Leading zeros do not count. -/
theorem fromBytesBe_replicate_zero (k : ℕ) (bytes : List UInt8) :
    fromBytesBe (List.replicate k 0 ++ bytes) = fromBytesBe bytes := by
  rw [fromBytesBe_append]
  have : fromBytesBe (List.replicate k 0) = 0 := by
    induction k with
    | zero => rfl
    | succ k ih =>
      rw [List.replicate_succ', fromBytesBe_append, ih]
      simp [fromBytesBe]
  rw [this, Nat.zero_mul, Nat.zero_add]

/-- Reading inverts writing. -/
theorem fromBytesBe_toBytesBe (n : ℕ) : fromBytesBe (toBytesBe n) = n := by
  unfold toBytesBe
  split
  · rename_i h
    subst h
    rfl
  · have hdigits : ∀ l : List ℕ, (∀ d ∈ l, d < 256) →
        fromBytesBe ((l.map UInt8.ofNat).reverse) = Nat.ofDigits 256 l := by
      intro l
      induction l with
      | nil => exact fun _ => rfl
      | cons d l ih =>
        intro hl
        have hd : d < 256 := hl d List.mem_cons_self
        have hd' : (UInt8.ofNat d).toNat = d := by
          rw [UInt8.toNat_ofNat']
          exact Nat.mod_eq_of_lt hd
        rw [List.map_cons, List.reverse_cons, fromBytesBe_append,
          ih fun x hx => hl x (List.mem_cons_of_mem _ hx), Nat.ofDigits_cons]
        simp only [fromBytesBe, List.foldl_cons, List.foldl_nil, List.length_singleton, hd']
        simp
        omega
    rw [hdigits _ fun d hd => Nat.digits_lt_base (by omega) hd, Nat.ofDigits_digits]

/-- The low twenty bytes are the remainder modulo `2 ^ 160`. -/
theorem fromBytesBe_lastTwenty (bytes : List UInt8) :
    fromBytesBe (lastTwenty bytes) = fromBytesBe bytes % 2 ^ 160 := by
  unfold lastTwenty
  split
  · rename_i hlen
    rw [fromBytesBe_replicate_zero, Nat.mod_eq_of_lt]
    calc fromBytesBe bytes < 256 ^ bytes.length := fromBytesBe_lt bytes
      _ ≤ 256 ^ 20 := Nat.pow_le_pow_right (by omega) hlen
      _ = 2 ^ 160 := by norm_num
  · rename_i hlen
    -- Split the string in front of its last twenty bytes.
    have hlast : (bytes.drop (bytes.length - 20)).length = 20 := by
      rw [List.length_drop]
      omega
    have hlt := fromBytesBe_lt (bytes.drop (bytes.length - 20))
    conv_rhs => rw [← List.take_append_drop (bytes.length - 20) bytes, fromBytesBe_append]
    rw [hlast] at hlt ⊢
    rw [show (2 : ℕ) ^ 160 = 256 ^ 20 by norm_num, Nat.mul_add_mod_self_right]
    exact (Nat.mod_eq_of_lt hlt).symm

/-- Writing a number and reading it back is the remainder modulo `2 ^ 160`. -/
theorem nodeIdToBiguint_biguintToNodeId (n : ℕ) :
    nodeIdToBiguint (biguintToNodeId n) = n % 2 ^ 160 := by
  show fromBytesBe (lastTwenty (toBytesBe n)).toArray.toList = n % 2 ^ 160
  rw [List.toList_toArray, fromBytesBe_lastTwenty, fromBytesBe_toBytesBe]

/-- Adding a power of two is an addition modulo `2 ^ 160`. -/
theorem nodeIdToBiguint_addIdPowerOf2 (id : NodeId) (i : ℕ) :
    nodeIdToBiguint (addIdPowerOf2 id i) = (nodeIdToBiguint id + 2 ^ i) % 2 ^ 160 := by
  rw [addIdPowerOf2, nodeIdToBiguint_biguintToNodeId, Nat.one_shiftLeft, Nat.one_shiftLeft,
    Nat.mod_mod]

/-! ### Addresses -/

/-- The address of an id: its bytes as characters. -/
def addressOf (id : NodeId) : String := String.ofList (id.toList.map fun b => Char.ofNat b.toNat)

/-- The id of an address. -/
def idOf (address : String) : NodeId :=
  ⟨(lastTwenty (address.toList.map fun c => UInt8.ofNat c.toNat)).toArray, by
    rw [List.size_toArray, length_lastTwenty]⟩

/-- An id is read back from its address. -/
@[simp] theorem idOf_addressOf (id : NodeId) : idOf (addressOf id) = id := by
  have hbyte : ∀ b : UInt8, UInt8.ofNat (Char.ofNat b.toNat).toNat = b := by
    intro b
    have hb : b.toNat < 256 := b.toNat_lt
    have hvalid : b.toNat.isValidChar := Or.inl (by omega)
    have hchar : (Char.ofNat b.toNat).toNat = b.toNat := by
      rw [Char.ofNat, dif_pos hvalid]
      rfl
    rw [hchar, UInt8.ofNat_toNat]
  have hlist : (id.toList.map fun b => Char.ofNat b.toNat).map (fun c => UInt8.ofNat c.toNat)
      = id.toList := by
    rw [List.map_map]
    exact (List.map_congr_left fun b _ => hbyte b).trans (List.map_id _)
  have hlen : id.toList.length = 20 := Vector.length_toList
  apply Vector.toList_inj.mp
  show (lastTwenty ((addressOf id).toList.map fun c => UInt8.ofNat c.toNat)).toArray.toList
    = id.toList
  rw [addressOf, String.toList_ofList, hlist, List.toList_toArray, lastTwenty, hlen]
  rfl

/-- The info of the node with an id. -/
def infoOf (id : NodeId) : NodeInfo := ⟨id, addressOf id, addressOf id⟩

/-- Nodes with the same info have the same id. -/
theorem infoOf_inj {i j : NodeId} (h : infoOf i = infoOf j) : i = j := congrArg NodeInfo.id h

/-- The directory of a finite set of ids. -/
def Directory.ofIds (ids : Finset NodeId) : Directory where
  ids := ids
  info := infoOf
  info_id _ := rfl
  address_inj i _ j _ h := by
    have := congrArg idOf h
    simpa [infoOf] using this

/-- The network with a state for each id, which listens everywhere. -/
def Network.ofIds (state : NodeId → ChordNode) : Network Unit :=
  ⟨fun address => state (idOf address), fun _ => true, ()⟩

/-- The state of a node in a network that is given by ids. -/
@[simp] theorem Directory.at'_ofIds (ids : Finset NodeId) (state : NodeId → ChordNode)
    (i : NodeId) : (Directory.ofIds ids).at' (Network.ofIds state).node i = state i :=
  congrArg state (idOf_addressOf i)

/-- The node with an id whose pointers are given by ids. Its fingers are not refreshed. -/
def linkedNode (succ : NodeId → NodeId) (pred : NodeId → Option NodeId) (id : NodeId) :
    ChordNode where
  info := infoOf id
  successor := infoOf (succ id)
  successorList := List.replicate successorListSize (infoOf (succ id))
  predecessor := (pred id).map infoOf
  fingerTable := List.replicate M (infoOf id)
  data := ∅
  virtualNodes := List.replicate virtualNodesPerNode id
  nodeLoads := fun _ => none
  metrics := some NetworkMetrics.default

/-- A network of linked nodes runs the nodes of a directory that is closed under the pointers. -/
theorem Directory.serves_linked {ids : Finset NodeId} {succ : NodeId → NodeId}
    {pred : NodeId → Option NodeId} (hsucc : ∀ i ∈ ids, succ i ∈ ids)
    (hpred : ∀ i ∈ ids, ∀ p, pred i = some p → p ∈ ids) :
    (Directory.ofIds ids).Serves (Network.ofIds (linkedNode succ pred)) where
  info i _ := congrArg ChordNode.info (at'_ofIds ids _ i)
  listening _ _ := rfl
  reports i hi := by
    rw [at'_ofIds]
    have hself : (Directory.ofIds ids).Known (infoOf i) := ⟨i, hi, rfl⟩
    have hs : (Directory.ofIds ids).Known (infoOf (succ i)) := ⟨succ i, hsucc i hi, rfl⟩
    refine ⟨hself, hs, fun x hx => ?_, fun x hx => ?_, fun x hx => ?_⟩
    · exact List.eq_of_mem_replicate hx ▸ hs
    · obtain ⟨p, hp, rfl⟩ := Option.map_eq_some_iff.mp hx
      exact ⟨p, hpred i hi p hp, rfl⟩
    · exact List.eq_of_mem_replicate hx ▸ hself

/-- A node whose fingers are all its own info finds no closer node. -/
theorem closestPrecedingNode_unrefreshed {n : ChordNode} {k : ℕ}
    (h : n.fingerTable = List.replicate k n.info) (id : NodeId) :
    n.closestPrecedingNode id = n.info := by
  rcases n.closestPrecedingNode_mem id with hself | hfinger
  · exact hself
  · rw [h] at hfinger
    exact List.eq_of_mem_replicate hfinger

/-- A node whose fingers are all one node that lies on the way finds that node. -/
theorem closestPrecedingNode_replicate {n : ChordNode} {x : NodeInfo} {k : ℕ}
    (h : n.fingerTable = List.replicate (k + 1) x) {id : NodeId}
    (hx : isBetween x.id n.info.id id = true) : n.closestPrecedingNode id = x := by
  have htake : x ∈ n.fingerTable.take M := by
    rw [h, List.take_replicate]
    exact List.mem_replicate.mpr ⟨by simp [M], rfl⟩
  rcases n.closestPrecedingNode_cases id with ⟨-, hnone⟩ | ⟨_, f, _, htable, -, -, hf⟩
  · exact absurd ((isBetween_iff _ _ _).mp hx) (hnone x htake)
  · have hmem : f ∈ n.fingerTable := by
      refine List.mem_of_mem_take (i := M) ?_
      rw [htable]
      exact List.mem_append_right _ List.mem_cons_self
    rw [h] at hmem
    exact hf.trans (List.eq_of_mem_replicate hmem)

/-! ### A ring of two nodes with fingers that are not refreshed -/

open IdCircle

/-- The two ids of the ring. -/
def pairIds : Finset NodeId := {biguintToNodeId 10, biguintToNodeId 20}

/-- The other id of the ring. -/
def otherOfPair (i : NodeId) : NodeId :=
  if i = biguintToNodeId 10 then biguintToNodeId 20 else biguintToNodeId 10

/-- The ring of two nodes. -/
def pairRing : Network Unit := Network.ofIds (linkedNode otherOfPair fun i => some (otherOfPair i))

/-- The other node of the pair is one of the pair. -/
theorem otherOfPair_mem (i : NodeId) : otherOfPair i ∈ pairIds := by
  unfold otherOfPair pairIds
  split <;> simp

/-- The two nodes know each other only. -/
theorem pairRing_serves : (Directory.ofIds pairIds).Serves pairRing :=
  Directory.serves_linked (fun i _ => otherOfPair_mem i) fun i _ _ hp =>
    Option.some.inj hp ▸ otherOfPair_mem i

/-- Each is followed by the other one. -/
theorem pairRing_succ (i : NodeId) :
    (Directory.ofIds pairIds).succ pairRing.node i = otherOfPair i :=
  congrArg (fun n : ChordNode => n.successor.id) (Directory.at'_ofIds pairIds _ i)

/-- With fingers that are not refreshed, no walk leaves its first node. -/
theorem pairRing_hop (id i : NodeId) : (Directory.ofIds pairIds).hop pairRing.node id i = i := by
  have hstate := Directory.at'_ofIds pairIds
    (linkedNode otherOfPair fun i => some (otherOfPair i)) i
  rw [Directory.hop, pairRing, hstate, closestPrecedingNode_unrefreshed (k := M) rfl]
  rfl

/-- Without fingers, a walk stays where it starts. -/
theorem pairRing_route (id i : NodeId) :
    (Directory.ofIds pairIds).route pairRing.node id maxRetries i = i := by
  rw [maxRetries, Directory.route, if_pos (Or.inr (pairRing_hop id i))]

/-- The ring of two nodes after the node 20 has refreshed its fingers: all of them are the node 10,
which is also what the fingers of the node 10 are initially. -/
def refreshedPair : Network Unit := Network.ofIds fun i =>
  { linkedNode otherOfPair (fun i => some (otherOfPair i)) i with
    fingerTable := List.replicate M (infoOf (biguintToNodeId 10)) }

/-- The fingers name the two nodes only. -/
theorem refreshedPair_serves : (Directory.ofIds pairIds).Serves refreshedPair where
  info i hi := pairRing_serves.info i hi
  listening _ _ := rfl
  reports i hi := by
    obtain ⟨hinfo, hsucc, hlist, hpred, -⟩ := pairRing_serves.reports i hi
    refine ⟨hinfo, hsucc, hlist, hpred, fun x hx => ?_⟩
    have hx : x ∈ List.replicate M (infoOf (biguintToNodeId 10)) := hx
    exact ⟨biguintToNodeId 10, by decide, List.eq_of_mem_replicate hx⟩

/-- Each is followed by the other one. -/
theorem refreshedPair_succ (i : NodeId) :
    (Directory.ofIds pairIds).succ refreshedPair.node i = otherOfPair i :=
  pairRing_succ i

/-- A walk from the node 20 to an id between 20 and 10 goes to the node 10. -/
theorem refreshedPair_hop {id i : NodeId} (h : isBetween (biguintToNodeId 10) i id = true) :
    (Directory.ofIds pairIds).hop refreshedPair.node id i = biguintToNodeId 10 := by
  have hat : (Directory.ofIds pairIds).at' refreshedPair.node i =
      { linkedNode otherOfPair (fun i => some (otherOfPair i)) i with
        fingerTable := List.replicate M (infoOf (biguintToNodeId 10)) } :=
    Directory.at'_ofIds pairIds _ i
  rw [Directory.hop, hat, closestPrecedingNode_replicate (k := M - 1) rfl h]
  rfl

/-- On the circle each is followed by the other one, too. -/
theorem next_pairIds {i : NodeId} (hi : i ∈ pairIds) : next pairIds i = otherOfPair i := by
  refine next_eq (otherOfPair_mem i) fun c hc => ?_
  simp only [pairIds, Finset.mem_insert, Finset.mem_singleton] at hi hc
  rcases hi with rfl | rfl <;> rcases hc with rfl | rfl <;> decide

/-- On the circle each is preceded by the other one. -/
theorem prev_pairIds {i : NodeId} (hi : i ∈ pairIds) : prev pairIds i = otherOfPair i := by
  have hother : otherOfPair (otherOfPair i) = i := by
    simp only [pairIds, Finset.mem_insert, Finset.mem_singleton] at hi
    rcases hi with rfl | rfl <;> decide
  have h := prev_next (otherOfPair_mem i)
  rwa [next_pairIds (otherOfPair_mem i), hother] at h

end TaceChat
