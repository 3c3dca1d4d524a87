import TaceChat.Proofs.FixedPoint
import TaceChat.Proofs.ReadTermination

/-!
# Which reads return everything that was stored

A store reaches the node that takes it and the replica nodes that this node finds, at most three
others. A read answers from the node's own list when it has one, and otherwise asks its own replica
nodes. So after a sequence of stores a read returns all the values of a key exactly when it is led
to a node that every store of the key has reached (`stores_available_iff`). In a ring of at most
three nodes every store reaches every node (`ExactRing.served_of_card_le`).
-/

set_option autoImplicit false

namespace TaceChat

open IdCircle Network Relation Search

namespace Directory

variable {D : Directory} {net : Network Unit} {depth : ℕ}

/-- A ring whose routing state is exact. -/
structure ExactRing (D : Directory) (net : Network Unit) : Prop extends D.Runs net where
  pointers : D.ExactPointers D.ids net.node
  successorList : ∀ i ∈ D.ids, D.listAt net i = D.nextList D.ids i
  fingerTable : ∀ i ∈ D.ids, (D.at' net.node i).fingerTable =
    (List.range M).map fun k => D.info (owner D.ids (addIdPowerOf2 i k))
  virtualNodes : ∀ i ∈ D.ids, (D.at' net.node i).virtualNodes.length = virtualNodesPerNode

/-- In an exact ring every node holds infos of members only. -/
theorem ExactRing.serves (h : D.ExactRing net) : D.Serves net := by
  refine ⟨h.toRuns, fun i hi => ?_⟩
  have hne : D.ids.Nonempty := ⟨i, hi⟩
  refine ⟨?_, ?_, fun x hx => ?_, fun x hx => ?_, fun x hx => ?_⟩
  · rw [h.info i hi]
    exact known_info hi
  · rw [h.pointers.successor i hi]
    exact known_info (next_mem hne i)
  · have hlist : (D.at' net.node i).successorList = D.nextList D.ids i := h.successorList i hi
    rw [hlist, nextList] at hx
    obtain ⟨k, -, rfl⟩ := List.mem_map.mp hx
    exact known_info (iterate_next_mem hi _)
  · rw [h.pointers.predecessor i hi, predecessorIn] at hx
    split at hx
    · cases hx
    · cases hx
      exact known_info (prev_mem hne i)
  · rw [h.fingerTable i hi] at hx
    obtain ⟨k, -, rfl⟩ := List.mem_map.mp hx
    exact known_info (owner_mem hne _)

/-! ### Where stores go -/

section Copies
variable (D) (nodes : String → ChordNode)

/-- What is stored at the node `x` under the key gets to the node `j`. -/
def Copied (key x j : NodeId) : Prop := j = x ∨ D.info j ∈ D.replicaNodes nodes key x

/-- It can be computed where a store gets. -/
instance (key x j : NodeId) : Decidable (D.Copied nodes key x j) :=
  inferInstanceAs (Decidable (_ ∨ _))

/-- After the stores the node `j` has an entry for the key: it had one before, or one of the stores
has got there. -/
def HoldsKey (stores : List (NodeId × NodeId × Value)) (key j : NodeId) : Prop :=
  (D.held nodes key j).isSome = true ∨ ∃ s ∈ stores, s.2.1 = key ∧ D.Copied nodes key s.1 j

/-- It can be computed who has an entry. -/
instance (stores : List (NodeId × NodeId × Value)) (key j : NodeId) :
    Decidable (D.HoldsKey nodes stores key j) :=
  inferInstanceAs (Decidable (_ ∨ ∃ s ∈ stores, _))

/-- After the stores the entry of the node `j` has the value `v`. -/
def HoldsValue (stores : List (NodeId × NodeId × Value)) (key j : NodeId) (v : Value) : Prop :=
  v ∈ (D.at' nodes j).valuesAt key ∨ ∃ s ∈ stores, s.2 = (key, v) ∧ D.Copied nodes key s.1 j

/-- A sequence of stores, each at a node under a key. -/
def storeAll (depth : ℕ) (stores : List (NodeId × NodeId × Value)) : NodeM (Network Unit) Unit :=
  forM stores fun s => store (env reliable depth (D.info s.1).address) s.2.1 s.2.2

end Copies

/-- A store appends its value at the nodes that it gets to, and changes nothing else. -/
theorem Serves.store_copies (hS : D.Serves net) {x : NodeId} (hx : x ∈ D.ids) (key : NodeId)
    (value : Value) :
    Returns (store (env reliable (depth + 1) (D.info x).address) key value) net fun _ net' =>
      ChangesData (fun _ => True) net net' ∧ ∀ j ∈ D.ids, D.at' net'.node j =
        if D.Copied net.node key x j then (D.at' net.node j).extendKey key [value]
        else D.at' net.node j := by
  refine ((store_changesData (P := fun _ => True) trivial value).and
    (store_reliable hS hx key value)).mono ?_
  rintro - net' ⟨hdata, -, hnode⟩
  refine ⟨hdata, fun j hj => ?_⟩
  have hprimary : D.Known (D.info (D.primary net.node key x)) :=
    hS.replicaNodes_known hx _ List.mem_cons_self
  have hnodup := hS.replicaAddresses_nodup hx hprimary
  have hself := hS.notMem_replicaAddresses hx hprimary
  rw [← replicaNodes] at hnodup hself
  rw [at', hnode]
  by_cases hjx : j = x
  · -- The node itself appends once: it is not among the addresses that it sends to.
    have hcopied : D.Copied net.node key x j := Or.inl hjx
    rw [if_pos hcopied, hjx, foldl_appendAt_of_notMem _ hself, appendAt, Function.update_self]
    rfl
  · have haddress : (D.info j).address ≠ (D.info x).address := fun h =>
      hjx (D.address_inj j hj x hx h)
    by_cases hmem : D.info j ∈ D.replicaNodes net.node key x
    · have hreplica : (D.info j).address ∈
          replicaAddresses x (D.replicaNodes net.node key x) := by
        refine List.mem_map.mpr ⟨D.info j, List.mem_filter.mpr ⟨hmem, ?_⟩, rfl⟩
        rw [D.info_id]
        exact decide_eq_true hjx
      have hcopied : D.Copied net.node key x j := Or.inr hmem
      rw [if_pos hcopied, foldl_appendAt_of_mem _ hnodup hreplica, appendAt,
        Function.update_of_ne haddress]
      rfl
    · have hmissed : (D.info j).address ∉
          replicaAddresses x (D.replicaNodes net.node key x) := by
        intro h
        obtain ⟨y, hy, heq⟩ := List.mem_map.mp h
        have hy := List.mem_of_mem_filter hy
        obtain ⟨i, hi, rfl⟩ := hS.replicaNodes_known hx y hy
        exact hmem (D.address_inj i hi j hj heq ▸ hy)
      have hcopied : ¬D.Copied net.node key x j := not_or.mpr ⟨hjx, hmem⟩
      rw [if_neg hcopied, foldl_appendAt_of_notMem _ hmissed, appendAt,
        Function.update_of_ne haddress]
      rfl

/-- Data does not matter for where a store goes. -/
theorem copied_changesData {P : NodeId → Prop} {nodes nodes' : String → ChordNode}
    (h : DataWithin P nodes nodes') {key x j : NodeId} :
    D.Copied nodes' key x j ↔ D.Copied nodes key x j := by
  rw [Copied, Copied, replicaNodes_changesData h]

/-- What the nodes hold under the key in the network that the stores leave behind. -/
structure AfterStores (D : Directory) (net : Network Unit)
    (stores : List (NodeId × NodeId × Value)) (key : NodeId) (net' : Network Unit) : Prop where
  data : ChangesData (fun _ => True) net net'
  holdsKey : ∀ j ∈ D.ids,
    ((D.held net'.node key j).isSome = true ↔ D.HoldsKey net.node stores key j)
  holdsValue : ∀ j ∈ D.ids, ∀ v,
    v ∈ (D.at' net'.node j).valuesAt key ↔ D.HoldsValue net.node stores key j v

/-- A sequence of stores leaves such a network behind. -/
theorem storeAll_afterStores (depth : ℕ) (stores : List (NodeId × NodeId × Value)) :
    ∀ {net : Network Unit}, D.Serves net → (∀ s ∈ stores, s.1 ∈ D.ids) → ∀ key,
      Returns (D.storeAll (depth + 1) stores) net
        fun _ net' => D.AfterStores net stores key net' := by
  induction stores with
  | nil =>
    intro net _ _ key
    exact returns_pure.mpr ⟨.refl net, fun j _ => by simp [HoldsKey],
      fun j _ v => by simp [HoldsValue]⟩
  | cons s stores ih =>
    intro net hS hmem key
    obtain ⟨x, k, value⟩ := s
    obtain ⟨hx, hmem⟩ := List.forall_mem_cons.mp hmem
    rw [storeAll, List.forM_cons]
    refine (hS.store_copies hx k value).bind ?_
    rintro - net₁ ⟨hdata, hat⟩
    -- The first store counts for a node when it is under the key and gets to the node.
    have hkey₁ : ∀ j ∈ D.ids, (D.held net₁.node key j).isSome = true ↔
        (D.held net.node key j).isSome = true ∨ k = key ∧ D.Copied net.node key x j := by
      intro j hj
      rw [held, held, hat j hj]
      by_cases hcopied : D.Copied net.node k x j
      · rw [if_pos hcopied, ChordNode.isSome_lookup_extendKey]
        exact or_congr_right ⟨fun hk => ⟨hk, hk ▸ hcopied⟩, And.left⟩
      · rw [if_neg hcopied]
        exact ⟨Or.inl, fun h => h.resolve_right fun hk => hcopied (hk.1 ▸ hk.2)⟩
    have hvalue₁ : ∀ j ∈ D.ids, ∀ v, v ∈ (D.at' net₁.node j).valuesAt key ↔
        v ∈ (D.at' net.node j).valuesAt key ∨
          (k, value) = (key, v) ∧ D.Copied net.node key x j := by
      intro j hj v
      rw [hat j hj, Prod.mk.injEq]
      by_cases hcopied : D.Copied net.node k x j
      · rw [if_pos hcopied, ChordNode.mem_valuesAt_extendKey, List.mem_singleton]
        exact or_congr_right ⟨fun h => ⟨⟨h.1, h.2.symm⟩, h.1 ▸ hcopied⟩,
          fun h => ⟨h.1.1, h.1.2.symm⟩⟩
      · rw [if_neg hcopied]
        exact ⟨Or.inl, fun h => h.resolve_right fun hk => hcopied (hk.1.1 ▸ hk.2)⟩
    refine (ih (hS.changesData hdata) hmem key).mono ?_
    rintro - net' ⟨hdata', hkey, hvalue⟩
    refine ⟨hdata.trans hdata', fun j hj => ?_, fun j hj v => ?_⟩
    · rw [hkey j hj, HoldsKey, HoldsKey, hkey₁ j hj]
      simp only [copied_changesData hdata.2, List.exists_mem_cons_iff, or_assoc]
    · rw [hvalue j hj, HoldsValue, HoldsValue, hvalue₁ j hj]
      simp only [copied_changesData hdata.2, List.exists_mem_cons_iff, or_assoc]

/-! ### What reads find -/

section Served
variable (D) (nodes : String → ChordNode) (stores : List (NodeId × NodeId × Value)) (key : NodeId)

/-- Which nodes answer a read of the key after the stores. -/
def answers (j : NodeId) : Option Unit := if D.HoldsKey nodes stores key j then some () else none

/-- The read of the key at `y` finds every value that was stored under it: nothing was, and the
read starts at a dead end, or the first live nodes lead it to a node that holds them all. -/
def Served (y : NodeId) : Prop :=
  (DeadEnd (D.answers nodes stores key) (D.asked nodes key) y ∧ ∀ s ∈ stores, s.2.1 ≠ key) ∨
    ∃ z, ReflTransGen (FirstLive (D.answers nodes stores key) (D.asked nodes key)) y z ∧
      D.HoldsKey nodes stores key z ∧
      ∀ x v, (x, key, v) ∈ stores → D.HoldsValue nodes stores key z v

end Served

variable {stores : List (NodeId × NodeId × Value)} {key y : NodeId}

/-- A node without an entry does not answer. -/
theorem answers_eq_none_iff {nodes : String → ChordNode} {j : NodeId} :
    D.answers nodes stores key j = none ↔ ¬D.HoldsKey nodes stores key j := by
  simp [answers]

namespace AfterStores

variable {net' : Network Unit} (h : D.AfterStores net stores key net')
include h

/-- After the stores, a node has no entry when it does not answer. -/
theorem held_eq_none_iff : ∀ j ∈ D.ids,
    (D.held net'.node key j = none ↔ D.answers net.node stores key j = none) := by
  intro j hj
  rw [answers_eq_none_iff, ← h.holdsKey j hj, Bool.not_eq_true, Option.isSome_eq_false_iff,
    Option.isNone_iff_eq_none]

/-- A read that returns everything stored is served. -/
theorem served (hS : D.Serves net) (hy : y ∈ D.ids)
    (hrun : Returns (retrieve (env reliable depth (D.info y).address) key) net'
      fun r _ => ∀ x v, (x, key, v) ∈ stores → v ∈ r.getD []) :
    D.Served net.node stores key y := by
  obtain ⟨r, net₁, -, hstored, hend⟩ :=
    ends_of_returns_retrieve reliable_tallies (hS.changesData h.data) hy hrun
  have hasked : D.asked net'.node key = D.asked net.node key :=
    funext fun _ => asked_changesData h.data.2
  rw [hasked] at hend
  rcases hend with ⟨hdead, rfl⟩ | ⟨z, values, hyz, hz, rfl⟩
  · refine Or.inl ⟨hdead.of_answers (fun j hj _ => hS.asked_mem hj) h.held_eq_none_iff hy, ?_⟩
    rintro ⟨x, k, v⟩ hs rfl
    exact absurd (hstored x v hs) List.not_mem_nil
  · obtain ⟨hled, hzmem⟩ := led_of_answers (fun j hj _ => hS.asked_mem hj) h.held_eq_none_iff hy hyz
    refine Or.inr ⟨z, hled, (h.holdsKey z hzmem).mp (by rw [hz]; rfl), fun x v hs => ?_⟩
    refine (h.holdsValue z hzmem v).mp ?_
    have hvalues : (D.at' net'.node z).valuesAt key = values := by
      rw [ChordNode.valuesAt]
      exact congrArg (Option.getD · []) hz
    rw [hvalues]
    exact hstored x v hs

/-- A read that is served returns everything stored. -/
theorem returns (hS : D.Serves net) (hy : y ∈ D.ids) (hserved : D.Served net.node stores key y) :
    Returns (retrieve (env reliable D.ids.card (D.info y).address) key) net'
      fun r _ => ∀ x v, (x, key, v) ∈ stores → v ∈ r.getD [] := by
  have hasked : D.asked net'.node key = D.asked net.node key :=
    funext fun _ => asked_changesData h.data.2
  have hnone := fun j hj => (h.held_eq_none_iff j hj).symm
  have hS' := hS.changesData h.data
  rcases hserved with ⟨hdead, hstored⟩ | ⟨z, hyz, hz, hstored⟩
  · have hdead := hdead.of_answers (fun j hj _ => hS.asked_mem hj) hnone hy
    rw [← hasked] at hdead
    refine (returns_retrieve_of_deadEnd reliable_tallies hS' hy hdead).mono ?_
    exact fun _ _ _ x v hs => absurd rfl (hstored (x, key, v) hs)
  · have hclosed : ∀ j ∈ D.ids, D.answers net.node stores key j = none →
        ∀ w ∈ D.asked net.node key j, w ∈ D.ids := fun j hj _ => hS.asked_mem hj
    obtain ⟨hled, hzmem⟩ := led_of_answers hclosed hnone hy hyz
    obtain ⟨values, hvalues⟩ := Option.isSome_iff_exists.mp ((h.holdsKey z hzmem).mpr hz)
    rw [← hasked] at hled
    refine (returns_retrieve_of_led reliable_tallies hS' hy hled hvalues).mono ?_
    rintro _ _ ⟨rfl, -⟩ x v hs
    have hv := (h.holdsValue z hzmem v).mpr (hstored x v hs)
    rw [ChordNode.valuesAt] at hv
    rw [← hvalues]
    exact hv

end AfterStores

/-! ### Small rings -/

/-- The other members of a ring of at most four nodes are in the successor list. -/
theorem ExactRing.mem_successorList (h : D.ExactRing net)
    (hcard : D.ids.card ≤ successorListSize + 1) {i j : NodeId} (hi : i ∈ D.ids) (hj : j ∈ D.ids)
    (hji : j ≠ i) : D.info j ∈ (D.at' net.node i).successorList := by
  obtain ⟨k, hk, hkj⟩ := exists_iterate_next hi hj
  have hlast : k + 1 ≠ D.ids.card := by
    intro heq
    rw [heq, iterate_next_card hi] at hkj
    exact hji hkj.symm
  have hlist : (D.at' net.node i).successorList = D.nextList D.ids i := h.successorList i hi
  rw [hlist, nextList, List.mem_map]
  refine ⟨k, List.mem_range.mpr (by omega), ?_⟩
  rw [show min (k + 1) (D.ids.card - 1) = k + 1 by omega, hkj]

/-- So they are candidates, unless one of them is the primary node. -/
theorem ExactRing.mem_replicaCandidates (h : D.ExactRing net)
    (hcard : D.ids.card ≤ successorListSize + 1) {i j : NodeId} (hi : i ∈ D.ids) (hj : j ∈ D.ids)
    (hji : j ≠ i) {primary : NodeInfo} (hjp : j ≠ primary.id) :
    D.info j ∈ (D.at' net.node i).replicaCandidates primary := by
  have hS := h.serves
  refine ChordNode.mem_replicaCandidates.mpr ⟨?_, ?_, ?_⟩
  · -- Deduplication keeps a node with the id, and there is one info for each id.
    obtain ⟨y, hy, hid⟩ := exists_mem_sortDedupById (List.mem_append_left
      ((D.at' net.node i).sampledFingers 3) (h.mem_successorList hcard hi hj hji))
    have hknown : D.Known y := by
      rcases List.mem_append.mp (mem_of_mem_sortDedupById hy) with hlist | hfinger
      · exact (hS.reports i hi).successorList y hlist
      · simp only [ChordNode.sampledFingers, List.mem_map, List.mem_filter] at hfinger
        obtain ⟨p, ⟨hp, -⟩, rfl⟩ := hfinger
        exact (hS.reports i hi).fingerTable p.1 (List.fst_mem_of_mem_zipIdx hp)
    rw [hknown.eq_info, hid, D.info_id] at hy
    exact hy
  · rw [D.info_id, hS.info i hi, D.info_id]
    exact hji
  · rw [D.info_id]
    exact hjp

/-- A small ring has room for every candidate. -/
theorem Serves.length_replicaCandidates (hS : D.Serves net) (hcard : D.ids.card ≤ 3) {i : NodeId}
    (hi : i ∈ D.ids) (primary : NodeInfo) :
    ((D.at' net.node i).replicaCandidates primary).length ≤ replicationFactor - 1 := by
  have hnodup := ChordNode.replicaCandidates_nodup (D.at' net.node i) primary
  have hsub : (((D.at' net.node i).replicaCandidates primary).map NodeInfo.id).toFinset
      ⊆ D.ids.erase i := by
    intro j hj
    obtain ⟨x, hx, rfl⟩ := List.mem_map.mp (List.mem_toFinset.mp hj)
    have hself : (D.at' net.node i).info.id = i := by rw [hS.info i hi, D.info_id]
    refine Finset.mem_erase.mpr ⟨?_, ((hS.reports i hi).replicaCandidates primary x hx).mem⟩
    exact hself ▸ (ChordNode.mem_replicaCandidates.mp hx).2.1
  have hle := Finset.card_le_card hsub
  rw [List.toFinset_card_of_nodup hnodup, List.length_map, Finset.card_erase_of_mem hi] at hle
  have hr : replicationFactor = 3 := rfl
  omega

/-- In a ring of at most three nodes a store gets to every node. -/
theorem ExactRing.copied_of_card_le (h : D.ExactRing net) (hcard : D.ids.card ≤ 3) {x j : NodeId}
    (hx : x ∈ D.ids) (hj : j ∈ D.ids) (key : NodeId) : D.Copied net.node key x j := by
  by_cases hjx : j = x
  · exact Or.inl hjx
  · right
    rw [replicaNodes, List.take_of_length_le (h.serves.length_replicaCandidates hcard hx _)]
    by_cases hjp : j = D.primary net.node key x
    · rw [hjp]
      exact List.mem_cons_self
    · refine List.mem_cons_of_mem _
        (h.mem_replicaCandidates (Nat.le_succ_of_le hcard) hx hj hjx ?_)
      rwa [D.info_id]

/-- So every read of a stored key returns every value, from the node's own list. -/
theorem ExactRing.served_of_card_le (h : D.ExactRing net) (hcard : D.ids.card ≤ 3)
    (hmem : ∀ s ∈ stores, s.1 ∈ D.ids) (hy : y ∈ D.ids) {x : NodeId} {v : Value}
    (hstored : (x, key, v) ∈ stores) : D.Served net.node stores key y := by
  refine Or.inr ⟨y, .refl, Or.inr ⟨_, hstored, rfl, ?_⟩, fun x v hs => Or.inr ⟨_, hs, rfl, ?_⟩⟩
  · exact h.copied_of_card_le hcard (hmem _ hstored) hy key
  · exact h.copied_of_card_le hcard (hmem _ hs) hy key

end Directory

/-- Which reads return everything that was stored. In a static ring, a read of the key at the node
`y` after a sequence of stores returns, with enough nesting, a list with every value that was stored
under the key, exactly when the read is served. A read that finds nothing counts as an empty
list. -/
theorem stores_available_iff (D : Directory) (net : Network Unit)
    (stores : List (NodeId × NodeId × Value)) (y key : NodeId) (h : D.ExactRing net)
    (hmem : ∀ s ∈ stores, s.1 ∈ D.ids) (hy : y ∈ D.ids) :
    (∃ depth, Returns (do
        D.storeAll (depth + 1) stores
        retrieve (env reliable (depth + 1) (D.info y).address) key) net
      fun r _ => ∀ x v, (x, key, v) ∈ stores → v ∈ r.getD []) ↔
    D.Served net.node stores key y := by
  constructor
  · rintro ⟨depth, hrun⟩
    obtain ⟨_, net', -, hafter, hrun⟩ := (Directory.storeAll_afterStores depth stores h.serves
      hmem key).and (returns_bind.mp hrun)
    exact hafter.served h.serves hy hrun
  · intro hserved
    refine ⟨D.ids.card, (Directory.storeAll_afterStores _ stores h.serves hmem key).bind ?_⟩
    rintro - net' hafter
    exact (retrieve_env_extends (Nat.le_succ _) _ key).returns
      (hafter.returns h.serves hy hserved)

/-! ### A ring of four nodes -/

/-- A node of a ring with exact routing state, which holds no data. Its virtual nodes have its own
id. -/
noncomputable def exactNode (ids : Finset NodeId) (i : NodeId) : ChordNode where
  info := infoOf i
  successor := infoOf (next ids i)
  successorList := (Directory.ofIds ids).nextList ids i
  predecessor := (Directory.ofIds ids).predecessorIn ids i
  fingerTable := (List.range M).map fun k => infoOf (owner ids (addIdPowerOf2 i k))
  data := ∅
  virtualNodes := List.replicate virtualNodesPerNode i
  nodeLoads := fun _ => none
  metrics := some NetworkMetrics.default

/-- The nodes with exact pointers are an exact ring. -/
theorem exactRing_ofIds (ids : Finset NodeId) :
    (Directory.ofIds ids).ExactRing (Network.ofIds (exactNode ids)) := by
  have hat := Directory.at'_ofIds ids (exactNode ids)
  refine ⟨⟨fun i _ => ?_, fun _ _ => rfl⟩, ⟨fun i _ => ?_, fun i _ => ?_⟩, fun i _ => ?_,
    fun i _ => ?_, fun i _ => ?_⟩
  · exact congrArg ChordNode.info (hat i)
  · exact congrArg ChordNode.successor (hat i)
  · exact congrArg ChordNode.predecessor (hat i)
  · exact congrArg ChordNode.successorList (hat i)
  · exact congrArg ChordNode.fingerTable (hat i)
  · rw [hat i]
    exact List.length_replicate

/-- The ids of the ring. -/
def fourIds : Finset NodeId :=
  {biguintToNodeId 10, biguintToNodeId 20, biguintToNodeId 30, biguintToNodeId 40}

/-- The first entries of a strictly sorted list are its smallest. -/
theorem mem_take_of_lt {α : Type} {f : α → ℕ} {l : List α} {m : ℕ} {x y : α}
    (hsorted : l.Pairwise fun a b => f a < f b) (hx : x ∈ l.take m) (hy : y ∈ l)
    (hlt : f y < f x) : y ∈ l.take m := by
  rw [← List.take_append_drop m l] at hsorted hy
  rcases List.mem_append.mp hy with hy | hy
  · exact hy
  · have := (List.pairwise_append.mp hsorted).2.2 x hx y hy
    omega

/-- What the node 10 stores under its own id goes to the nodes 20 and 30, and not to the node 40. -/
theorem fourRing_not_copied : ¬(Directory.ofIds fourIds).Copied
    (Network.ofIds (exactNode fourIds)).node (biguintToNodeId 10) (biguintToNodeId 10)
    (biguintToNodeId 40) := by
  have hring := exactRing_ofIds fourIds
  have hcard : (Directory.ofIds fourIds).ids.card ≤ successorListSize + 1 := by decide
  have hat := Directory.at'_ofIds fourIds (exactNode fourIds) (biguintToNodeId 10)
  -- No load is recorded, so the candidates stay in the order of their ids.
  have hsorted : ((exactNode fourIds (biguintToNodeId 10)).replicaCandidates
      (infoOf (biguintToNodeId 10))).Pairwise fun a b =>
        nodeIdToBiguint a.id < nodeIdToBiguint b.id := by
    rw [ChordNode.replicaCandidates, List.Pairwise.insertionSort_eq]
    · exact (sortDedupById_sorted _).filter _
    · exact List.pairwise_of_forall fun _ _ => le_refl (0 : ℚ)
  have hmem : ∀ j ∈ fourIds, j ≠ biguintToNodeId 10 →
      infoOf j ∈ (exactNode fourIds (biguintToNodeId 10)).replicaCandidates
        (infoOf (biguintToNodeId 10)) := by
    intro j hj hne
    rw [← hat]
    exact hring.mem_replicaCandidates hcard (by decide) hj hne hne
  -- The node 10 takes the key, so it is the primary node.
  have hcovers : ((Directory.ofIds fourIds).at' (Network.ofIds (exactNode fourIds)).node
      (biguintToNodeId 10)).Covers (biguintToNodeId 10) := by
    rw [hat]
    exact ChordNode.covers_of_mem (List.mem_replicate.mpr ⟨by decide, rfl⟩)
  rintro (hself | h40)
  · exact absurd hself (by decide)
  rw [Directory.replicaNodes, Directory.primary_of_covers hcovers, hat, List.mem_cons] at h40
  have h40 := h40.resolve_left fun heq => absurd (infoOf_inj heq) (by decide)
  have h20 := mem_take_of_lt hsorted h40 (hmem (biguintToNodeId 20) (by decide) (by decide))
    (by decide)
  have h30 := mem_take_of_lt hsorted h40 (hmem (biguintToNodeId 30) (by decide) (by decide))
    (by decide)
  have hsub : ({infoOf (biguintToNodeId 20), infoOf (biguintToNodeId 30),
      infoOf (biguintToNodeId 40)} : Finset NodeInfo) ⊆
        (((exactNode fourIds (biguintToNodeId 10)).replicaCandidates
          (infoOf (biguintToNodeId 10))).take 2).toFinset := by
    intro x hx
    simp only [Finset.mem_insert, Finset.mem_singleton] at hx
    rw [List.mem_toFinset]
    rcases hx with rfl | rfl | rfl
    · exact h20
    · exact h30
    · exact h40
  have hle := (Finset.card_le_card hsub).trans (List.toFinset_card_le _)
  rw [List.length_take] at hle
  have hthree : ({infoOf (biguintToNodeId 20), infoOf (biguintToNodeId 30),
      infoOf (biguintToNodeId 40)} : Finset NodeInfo).card = 3 := by decide
  omega

/-- `stores_available_iff` for a read at the node 40 that has stored the value itself. -/
theorem stores_available_iff_own : ∃ depth, Returns (do
      (Directory.ofIds fourIds).storeAll (depth + 1) [(biguintToNodeId 40, biguintToNodeId 10, [2])]
      retrieve (env reliable (depth + 1) (infoOf (biguintToNodeId 40)).address)
        (biguintToNodeId 10)) (Network.ofIds (exactNode fourIds))
    fun r _ => [2] ∈ r.getD [] := by
  have hmem : ∀ s ∈ [(biguintToNodeId 40, biguintToNodeId 10, ([2] : Value))],
      s.1 ∈ (Directory.ofIds fourIds).ids := fun s hs => List.mem_singleton.mp hs ▸ by decide
  have hserved : (Directory.ofIds fourIds).Served (Network.ofIds (exactNode fourIds)).node
      [(biguintToNodeId 40, biguintToNodeId 10, [2])] (biguintToNodeId 10)
      (biguintToNodeId 40) := by
    refine Or.inr ⟨_, .refl, Or.inr ⟨_, List.mem_singleton_self _, rfl, Or.inl rfl⟩, ?_⟩
    rintro x v hs
    exact Or.inr ⟨_, hs, rfl, Or.inl (congrArg Prod.fst (List.mem_singleton.mp hs)).symm⟩
  obtain ⟨depth, hrun⟩ := (stores_available_iff (Directory.ofIds fourIds)
    (Network.ofIds (exactNode fourIds)) _ (biguintToNodeId 40) (biguintToNodeId 10)
    (exactRing_ofIds fourIds) hmem (by decide)).mpr hserved
  exact ⟨depth, hrun.mono fun _ _ h => h _ _ (List.mem_singleton_self _)⟩

/-- Not every read returns everything: the node 40 has stored a value under the key 10 itself, and
does not return the value that the node 10 stores under that key. -/
theorem stores_not_available :
    ¬ ∀ (D : Directory) (net : Network Unit), D.ExactRing net →
      ∀ (stores : List (NodeId × NodeId × Value)) (y key : NodeId),
        (∀ s ∈ stores, s.1 ∈ D.ids) → y ∈ D.ids →
        ∃ depth, Returns (do
            D.storeAll (depth + 1) stores
            retrieve (env reliable (depth + 1) (D.info y).address) key) net
          fun r _ => ∀ x v, (x, key, v) ∈ stores → v ∈ r.getD [] := by
  intro hall
  have hring := exactRing_ofIds fourIds
  have hat := Directory.at'_ofIds fourIds (exactNode fourIds)
  have hmem : ∀ s ∈ ([(biguintToNodeId 40, biguintToNodeId 10, [2]),
      (biguintToNodeId 10, biguintToNodeId 10, [1])] : List (NodeId × NodeId × Value)),
      s.1 ∈ (Directory.ofIds fourIds).ids := by
    intro s hs
    rcases List.mem_cons.mp hs with rfl | hs
    · decide
    · exact List.mem_singleton.mp hs ▸ by decide
  obtain ⟨depth, hrun⟩ :=
    hall _ _ hring _ (biguintToNodeId 40) (biguintToNodeId 10) hmem (by decide)
  obtain ⟨_, net', -, hafter, hrun⟩ := (Directory.storeAll_afterStores depth _ hring.serves
    hmem (biguintToNodeId 10)).and (returns_bind.mp hrun)
  have hholds : (Directory.ofIds fourIds).HoldsKey (Network.ofIds (exactNode fourIds)).node
      [(biguintToNodeId 40, biguintToNodeId 10, [2]), (biguintToNodeId 10, biguintToNodeId 10, [1])]
      (biguintToNodeId 10) (biguintToNodeId 40) :=
    Or.inr ⟨_, List.mem_cons_self, rfl, Or.inl rfl⟩
  rcases hafter.served hring.serves (by decide) hrun with ⟨hdead, -⟩ | ⟨z, hled, -, hvalues⟩
  · exact Directory.answers_eq_none_iff.mp (hdead _ .refl).1 hholds
  · -- The node 40 answers itself, so nobody else is asked.
    obtain rfl : z = biguintToNodeId 40 := by
      rcases hled.cases_head with heq | ⟨_, ⟨hnone, -⟩, -⟩
      · exact heq.symm
      · exact absurd hholds (Directory.answers_eq_none_iff.mp hnone)
    rcases hvalues (biguintToNodeId 10) [1]
        (List.mem_cons_of_mem _ (List.mem_singleton_self _)) with
      hold | ⟨s, hs, hvalue, hcopied⟩
    · rw [hat] at hold
      exact absurd hold List.not_mem_nil
    · rcases List.mem_cons.mp hs with rfl | hs
      · exact absurd hvalue (by decide)
      · obtain rfl := List.mem_singleton.mp hs
        exact fourRing_not_copied hcopied

end TaceChat
