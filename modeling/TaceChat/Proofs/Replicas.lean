import TaceChat.Proofs.Appends
import TaceChat.Proofs.Directory

/-!
# The replica nodes of a key

What `sortDedupById` keeps, who the candidates for a replica are, and where the values of a store
end up when every call is answered. `ChordNode.valuesAt` is the reader's view of a data map: an
append adds to it, and nothing takes away from it.
-/

set_option autoImplicit false

namespace TaceChat

/-! ### Values under a key -/

namespace ChordNode

variable {n : ChordNode} {key k : NodeId} {values : List Value}

/-- The values come after those that are there. -/
@[simp] theorem valuesAt_extendKey :
    (n.extendKey key values).valuesAt key = n.valuesAt key ++ values := by
  simp [valuesAt, extendKey]

/-- The values of another key stay. -/
theorem valuesAt_extendKey_of_ne (h : k ≠ key) :
    (n.extendKey key values).valuesAt k = n.valuesAt k := by
  simp only [valuesAt, extendKey]
  rw [AList.lookup_insert_ne h]

/-- A node has the keys that it had and the one that it appends to. -/
theorem isSome_lookup_extendKey : ((n.extendKey key values).data.lookup k).isSome = true ↔
    (n.data.lookup k).isSome = true ∨ key = k := by
  rcases eq_or_ne k key with rfl | hk
  · simp [extendKey]
  · simp [extendKey, AList.lookup_insert_ne hk, Ne.symm hk]

/-- It holds what it held and what it appends. -/
theorem mem_valuesAt_extendKey {v : Value} : v ∈ (n.extendKey key values).valuesAt k ↔
    v ∈ n.valuesAt k ∨ key = k ∧ v ∈ values := by
  rcases eq_or_ne k key with rfl | hk
  · simp
  · simp [valuesAt_extendKey_of_ne hk, Ne.symm hk]

end ChordNode

section AppendAt

variable {key k : NodeId} {values : List Value} {nodes : String → ChordNode} {a b : String}

/-- A node that does not append stays as it is. -/
theorem foldl_appendAt_of_notMem (l : List String) :
    ∀ {nodes : String → ChordNode}, b ∉ l → l.foldl (appendAt key values) nodes b = nodes b := by
  induction l with
  | nil => exact fun _ => rfl
  | cons a l ih =>
    intro nodes hb
    rw [List.mem_cons, not_or] at hb
    rw [List.foldl_cons, ih hb.2, appendAt, Function.update_of_ne hb.1]

/-- A node appends once, when the list names it once. -/
theorem foldl_appendAt_of_mem (l : List String) :
    ∀ {nodes : String → ChordNode}, l.Nodup → b ∈ l →
      l.foldl (appendAt key values) nodes b = (nodes b).extendKey key values := by
  induction l with
  | nil => exact fun _ hb => by cases hb
  | cons a l ih =>
    intro nodes hl hb
    rw [List.nodup_cons] at hl
    rcases List.mem_cons.mp hb with rfl | hb
    · rw [List.foldl_cons, foldl_appendAt_of_notMem l hl.1, appendAt, Function.update_self]
    · have hba : b ≠ a := fun heq => hl.1 (heq ▸ hb)
      rw [List.foldl_cons, ih hl.2 hb, appendAt, Function.update_of_ne hba]

end AppendAt

/-! ### Deduplication -/

/-- Deduplication keeps a node of every id. -/
theorem exists_mem_sortDedupById {nodes : List NodeInfo} {x : NodeInfo} (hx : x ∈ nodes) :
    ∃ y ∈ sortDedupById nodes, y.id = x.id := by
  -- Only a node with the id of the one before it is dropped.
  have hdestutter : ∀ (l : List NodeInfo) (a x : NodeInfo), x ∈ a :: l →
      ∃ y ∈ l.destutter' (fun a b => a.id ≠ b.id) a, y.id = x.id := by
    intro l
    induction l with
    | nil =>
      intro a x hx
      exact ⟨x, hx, rfl⟩
    | cons b l ih =>
      intro a x hx
      by_cases hab : a.id ≠ b.id
      · rw [List.destutter'_cons_pos (R := fun a b : NodeInfo => a.id ≠ b.id) _ hab]
        rcases List.mem_cons.mp hx with rfl | hx
        · exact ⟨x, List.mem_cons_self, rfl⟩
        · obtain ⟨y, hy, hyx⟩ := ih b x hx
          exact ⟨y, List.mem_cons_of_mem _ hy, hyx⟩
      · rw [List.destutter'_cons_neg (R := fun a b : NodeInfo => a.id ≠ b.id) _ hab]
        rcases List.mem_cons.mp hx with rfl | hx
        · exact ih x x List.mem_cons_self
        · rcases List.mem_cons.mp hx with rfl | hx
          · -- The dropped node has the id of the node before it.
            obtain ⟨y, hy, hya⟩ := ih a a List.mem_cons_self
            exact ⟨y, hy, hya.trans (not_not.mp hab)⟩
          · exact ih a x (List.mem_cons_of_mem _ hx)
  have hsorted : x ∈ nodes.insertionSort idLe := (List.mem_insertionSort idLe).mpr hx
  unfold sortDedupById
  cases hl : nodes.insertionSort idLe with
  | nil =>
    rw [hl] at hsorted
    cases hsorted
  | cons a l =>
    rw [hl] at hsorted
    exact hdestutter l a x hsorted

/-- Sorting and removing doubles adds no node. -/
theorem mem_of_mem_sortDedupById {nodes : List NodeInfo} {x : NodeInfo}
    (hx : x ∈ sortDedupById nodes) : x ∈ nodes :=
  (List.mem_insertionSort idLe).mp ((List.destutter_sublist _ _).subset hx)

/-- A deduplicated list is in the strict order of the ids. -/
theorem sortDedupById_sorted (nodes : List NodeInfo) :
    (sortDedupById nodes).Pairwise fun a b => nodeIdToBiguint a.id < nodeIdToBiguint b.id := by
  have htrans : IsTrans NodeInfo idLe := ⟨fun _ _ _ hab hbc => Nat.le_trans hab hbc⟩
  have htotal : Std.Total idLe := ⟨fun a b => Nat.le_total _ _⟩
  have hsorted : (sortDedupById nodes).Pairwise idLe :=
    (List.pairwise_insertionSort idLe nodes).sublist (List.destutter_sublist _ _)
  have hchain : (sortDedupById nodes).IsChain fun a b => a.id ≠ b.id := List.isChain_destutter _ _
  -- Neighbours are in order and distinct, so the numbers of the ids grow strictly.
  refine List.isChain_iff_pairwise.mp (List.isChain_iff_getElem.mpr fun i hi => ?_)
  have hle := List.pairwise_iff_getElem.mp hsorted i (i + 1) (by omega) hi (by omega)
  exact Nat.lt_of_le_of_ne hle fun heq => hchain.getElem i hi (nodeIdToBiguint_inj _ _ heq)

/-- Deduplication leaves no two nodes with one id. -/
theorem sortDedupById_nodup (nodes : List NodeInfo) :
    ((sortDedupById nodes).map NodeInfo.id).Nodup := by
  rw [List.Nodup, List.pairwise_map]
  refine List.Pairwise.imp ?_ (sortDedupById_sorted nodes)
  rintro a b hab heq
  rw [heq] at hab
  exact Nat.lt_irrefl _ hab

/-! ### Candidates -/

namespace ChordNode

variable {n : ChordNode} {primary x : NodeInfo} {key : NodeId}

/-- The candidates come from the list and from the sampled fingers. Neither the node itself nor the
primary one is among them. -/
theorem mem_replicaCandidates : x ∈ n.replicaCandidates primary ↔
    x ∈ sortDedupById (n.successorList ++ n.sampledFingers 3) ∧
      x.id ≠ n.info.id ∧ x.id ≠ primary.id := by
  simp only [replicaCandidates, List.mem_insertionSort, List.mem_filter, decide_eq_true_eq]

/-- No two candidates have one id. -/
theorem replicaCandidates_nodup (n : ChordNode) (primary : NodeInfo) :
    ((n.replicaCandidates primary).map NodeInfo.id).Nodup := by
  have hperm := (List.perm_insertionSort n.loadLe ((sortDedupById (n.successorList ++
    n.sampledFingers 3)).filter fun x => x.id ≠ n.info.id ∧ x.id ≠ primary.id)).map NodeInfo.id
  refine hperm.nodup_iff.mpr ?_
  exact (sortDedupById_nodup _).sublist (List.filter_sublist.map _)

/-- One of the virtual nodes takes the key. -/
def Covers (n : ChordNode) (key : NodeId) : Prop :=
  (n.virtualNodes.any fun vnodeId => isBetween key n.info.id vnodeId || key = vnodeId) = true

/-- It can be computed whether a virtual node covers the key. -/
instance (n : ChordNode) (key : NodeId) : Decidable (n.Covers key) :=
  inferInstanceAs (Decidable (_ = true))

/-- A node takes the ids of its virtual nodes. -/
theorem covers_of_mem (h : key ∈ n.virtualNodes) : n.Covers key := by
  refine List.any_eq_true.mpr ⟨key, h, ?_⟩
  rw [decide_eq_true rfl, Bool.or_true]

end ChordNode

namespace Directory

open Network

/-- The primary node of a key, as the node `v` finds it. -/
def primary (D : Directory) (nodes : String → ChordNode) (key v : NodeId) : NodeId :=
  if (D.at' nodes v).Covers key then v else D.succ nodes (D.route nodes key maxRetries v)

/-- The replica nodes of a key, as the node `v` finds them. -/
def replicaNodes (D : Directory) (nodes : String → ChordNode) (key v : NodeId) : List NodeInfo :=
  D.info (D.primary nodes key v) ::
    ((D.at' nodes v).replicaCandidates (D.info (D.primary nodes key v))).take
      (replicationFactor - 1)

section
variable {D : Directory} {φ : Type} {medium : Medium φ} {depth : ℕ} {net : Network φ}
  {key v : NodeId}

/-- A node with a virtual node that covers the key takes itself for the primary one. -/
theorem primary_of_covers (h : (D.at' net.node v).Covers key) : D.primary net.node key v = v :=
  if_pos h

/-- The primary node is a member. -/
theorem Serves.primary_mem (hS : D.Serves net) (hv : v ∈ D.ids) :
    D.primary net.node key v ∈ D.ids := by
  unfold primary
  split
  · exact hv
  · exact hS.routes.succ_mem (hS.routes.route_mem key maxRetries hv)

/-- The selected nodes are known. -/
theorem Serves.replicaNodes_known (hS : D.Serves net) (hv : v ∈ D.ids) :
    ∀ x ∈ D.replicaNodes net.node key v, D.Known x := by
  intro x hx
  rcases List.mem_cons.mp hx with rfl | hx
  · exact known_info (hS.primary_mem hv)
  · exact (hS.reports v hv).replicaCandidates _ x (List.mem_of_mem_take hx)

/-- A replica node of a store at `v`, other than `v`, is at another address. -/
theorem Serves.notMem_replicaAddresses (hS : D.Serves net) (hv : v ∈ D.ids) {primary : NodeInfo}
    (hprimary : D.Known primary) :
    (D.info v).address ∉ replicaAddresses v
      (primary :: ((D.at' net.node v).replicaCandidates primary).take (replicationFactor - 1)) := by
  intro hmem
  obtain ⟨x, hx, haddress⟩ := List.mem_map.mp hmem
  obtain ⟨hx, hne⟩ := List.mem_filter.mp hx
  obtain ⟨j, hj, rfl⟩ : D.Known x := by
    rcases List.mem_cons.mp hx with rfl | hx
    · exact hprimary
    · exact (hS.reports v hv).replicaCandidates primary x (List.mem_of_mem_take hx)
  exact of_decide_eq_true hne ((D.info_id j).trans (D.address_inj j hj v hv haddress))

/-- No two replica nodes of a store are at one address. -/
theorem Serves.replicaAddresses_nodup (hS : D.Serves net) (hv : v ∈ D.ids) {primary : NodeInfo}
    (hprimary : D.Known primary) :
    (replicaAddresses v (primary ::
      ((D.at' net.node v).replicaCandidates primary).take (replicationFactor - 1))).Nodup := by
  have hids : ((primary :: ((D.at' net.node v).replicaCandidates primary).take
      (replicationFactor - 1)).map NodeInfo.id).Nodup := by
    rw [List.map_cons, List.nodup_cons]
    refine ⟨fun hmem => ?_, ?_⟩
    · obtain ⟨x, hx, hid⟩ := List.mem_map.mp hmem
      exact (ChordNode.mem_replicaCandidates.mp (List.mem_of_mem_take hx)).2.2 hid
    · exact (ChordNode.replicaCandidates_nodup _ _).sublist ((List.take_sublist _ _).map _)
  refine List.Nodup.map_on (fun x hx y hy hxy => ?_) (hids.of_map.sublist List.filter_sublist)
  have hknown : ∀ z ∈ (primary :: ((D.at' net.node v).replicaCandidates primary).take
      (replicationFactor - 1)).filter fun n => n.id ≠ v, D.Known z := by
    intro z hz
    rcases List.mem_cons.mp (List.mem_of_mem_filter hz) with rfl | hz
    · exact hprimary
    · exact (hS.reports v hv).replicaCandidates primary z (List.mem_of_mem_take hz)
  obtain ⟨i, hi, rfl⟩ := hknown x hx
  obtain ⟨j, hj, rfl⟩ := hknown y hy
  rw [D.address_inj i hi j hj hxy]

/-- The lookup of the primary node, when its calls are answered. -/
theorem findSuccessorWithVirtualNodes_primary {B : ℕ → φ → Prop} (hB : medium.Budget B)
    (hR : D.Routes net) (hv : v ∈ D.ids) {c : ℕ} (hb : B (2 * maxRetries + c) net.medium) :
    Returns (findSuccessorWithVirtualNodes (env medium (depth + 1) (D.info v).address) key) net
      fun r net' => r = D.info (D.primary net.node key v) ∧ SameNodes net net' ∧
        B c net'.medium := by
  have hself : (net.node (D.info v).address).info = D.info v := hR.info v hv
  simp only [findSuccessorWithVirtualNodes, returns_bind, returns_safeLock, env_node]
  refine returns_ite.mpr ⟨fun hcovers => returns_pure.mpr ⟨?_, .refl net, ?_⟩, fun hnot => ?_⟩
  · have hcovers : (D.at' net.node v).Covers key := hcovers
    rw [primary, if_pos hcovers, hself]
  · exact hB.le (Nat.le_add_left _ _) hb
  · have hnot : ¬ (D.at' net.node v).Covers key := hnot
    rw [primary, if_neg hnot]
    exact findSuccessor_route hB hR hv (Nat.le_refl maxRetries) (Or.inl rfl) hb

/-- The lookup of the replica nodes, when its calls are answered. -/
theorem getReplicaNodes_replicaNodes {B : ℕ → φ → Prop} (hB : medium.Budget B) (hS : D.Serves net)
    (hv : v ∈ D.ids) {c : ℕ} (hb : B (2 * maxRetries + c) net.medium) :
    Returns (getReplicaNodes (env medium (depth + 1) (D.info v).address) key) net
      fun r net' => r = D.replicaNodes net.node key v ∧ SameNodes net net' ∧ B c net'.medium := by
  refine (findSuccessorWithVirtualNodes_primary hB hS.routes hv hb).bind ?_
  rintro _ net' ⟨rfl, hsame, hb'⟩
  simp only [returns_bind, returns_safeLock, env_node, returns_pure]
  refine ⟨?_, hsame, hb'⟩
  rw [hsame.1]
  rfl

/-- Data does not matter for the pointers that a network serves. -/
theorem Serves.changesData {P : NodeId → Prop} {net' : Network φ} (hS : D.Serves net)
    (h : ChangesData P net net') : D.Serves net' := by
  refine ⟨⟨fun i hi => ?_, fun i hi => ?_⟩, fun i hi => ?_⟩
  · obtain ⟨d, hd, -⟩ := h.2 (D.info i).address
    rw [at', hd]
    exact hS.info i hi
  · rw [h.1]
    exact hS.listening i hi
  · obtain ⟨d, hd, -⟩ := h.2 (D.info i).address
    rw [at', hd]
    obtain ⟨hinfo, hsucc, hlist, hpred, hfinger⟩ := hS.reports i hi
    exact ⟨hinfo, hsucc, hlist, hpred, hfinger⟩

/-- Data does not matter for the primary node either. -/
theorem primary_changesData {P : NodeId → Prop} {nodes nodes' : String → ChordNode}
    (h : DataWithin P nodes nodes') : D.primary nodes' key v = D.primary nodes key v := by
  have hat : ∀ i, ∃ d : DataMap, D.at' nodes' i = { D.at' nodes i with data := d } := fun i =>
    (h (D.info i).address).imp fun _ hd => hd.1
  have hsucc : ∀ i, D.succ nodes' i = D.succ nodes i := by
    intro i
    obtain ⟨d, hd⟩ := hat i
    rw [succ, hd]
    rfl
  have hhop : ∀ i, D.hop nodes' key i = D.hop nodes key i := by
    intro i
    obtain ⟨d, hd⟩ := hat i
    rw [hop, hd]
    rfl
  have hroute : ∀ retries i, D.route nodes' key retries i = D.route nodes key retries i := by
    intro retries
    induction retries with
    | zero => exact fun _ => rfl
    | succ retries ih =>
      intro i
      simp only [route, OnTarget, hsucc, hhop, ih]
      exact if_congr Iff.rfl rfl rfl
  obtain ⟨d, hd⟩ := hat v
  simp only [primary, hsucc, hroute, hd]
  rfl

/-- So the replica nodes stay the same. -/
theorem replicaNodes_changesData {P : NodeId → Prop} {nodes nodes' : String → ChordNode}
    (h : DataWithin P nodes nodes') : D.replicaNodes nodes' key v = D.replicaNodes nodes key v := by
  obtain ⟨d, hd, -⟩ := h (D.info v).address
  have hd : D.at' nodes' v = { D.at' nodes v with data := d } := hd
  simp only [replicaNodes, primary_changesData h, hd]
  rfl

end

variable {D : Directory} {net : Network Unit} {depth : ℕ}

/-- Under the reliable medium replication reaches every replica node. -/
theorem forM_replicateTo_reliable {a : String} (key : NodeId) (values : List Value)
    (pairs : List (NodeInfo × ℕ)) :
    ∀ net : Network Unit, (∀ p ∈ pairs, net.listening p.1.address = true) →
      Returns (forM pairs fun p => replicateTo (env reliable (depth + 1) a) key values p.2 p.1) net
        fun _ net' => net'.listening = net.listening ∧
          net'.node = (replicaAddresses (net.node a).info.id (pairs.map Prod.fst)).foldl
            (appendAt key values) net.node := by
  induction pairs with
  | nil => exact fun net _ => returns_pure.mpr ⟨rfl, rfl⟩
  | cons p pairs ih =>
    intro net hlisten
    obtain ⟨hp, hlisten⟩ := List.forall_mem_cons.mp hlisten
    rw [List.forM_cons]
    simp only [replicateTo, returns_bind, returns_safeLock, returns_ite, env_node, env_callNode,
      returns_pure, returns_discard]
    refine ⟨fun hself => (ih net hlisten).mono ?_, fun hother => ?_⟩
    · rintro - net' ⟨hl, hnode⟩
      refine ⟨hl, ?_⟩
      rwa [replicaAddresses, List.map_cons, List.filter_cons_of_neg (by simpa using hself)]
    · rw [returns_call_reliable hp]
      simp only [handleConnection.eq_def, handleReplicateData, returns_bind, returns_safeUpdate,
        returns_pure, env_node, env_setNode]
      refine (ih (net.setNode p.1.address ((net.node p.1.address).extendKey key values))
        hlisten).mono ?_
      rintro - net' ⟨hl, hnode⟩
      -- The call may be to the node itself, but values are all it changes.
      have hid : ((appendAt key values net.node p.1.address) a).info.id = (net.node a).info.id :=
        congrArg NodeInfo.id (appendAt_info _ _ _ _ _)
      refine ⟨hl, ?_⟩
      rw [replicaAddresses, List.map_cons, List.filter_cons_of_pos (by simpa using hother),
        List.map_cons, List.foldl_cons, hnode]
      show List.foldl _ _ (replicaAddresses ((appendAt key values net.node p.1.address) a).info.id
        _) = _
      rw [hid]
      rfl

/-- Where the value of a store ends up: at the node itself, and at the replica nodes that it finds.
Its own append does not matter for them. -/
theorem store_reliable (hS : D.Serves net) {i : NodeId} (hi : i ∈ D.ids) (key : NodeId)
    (value : Value) :
    Returns (store (env reliable (depth + 1) (D.info i).address) key value) net fun _ net' =>
      net'.listening = net.listening ∧
        net'.node = (replicaAddresses i (D.replicaNodes net.node key i)).foldl
          (appendAt key [value]) (appendAt key [value] net.node (D.info i).address) := by
  simp only [store, replicateData, returns_bind, returns_safeUpdate, env_node, env_setNode]
  -- The local append comes first; the replica nodes do not depend on it.
  have hlocal : DataWithin (fun _ => True) net.node (appendAt key [value] net.node
      (D.info i).address) := .appendAt trivial [value] net.node _
  have hS' : D.Serves (net.setNode (D.info i).address
      ((net.node (D.info i).address).extendKey key [value])) := hS.changesData ⟨rfl, hlocal⟩
  refine (getReplicaNodes_replicaNodes (c := 0) reliable_budget hS' hi trivial).mono ?_
  rintro _ net₁ ⟨rfl, hsame, -⟩
  obtain rfl := hsame.eq
  have hlisten : ∀ p ∈ (D.replicaNodes (net.setNode (D.info i).address
      ((net.node (D.info i).address).extendKey key [value])).node key i).zipIdx,
      net.listening p.1.address = true := by
    intro p hp
    obtain ⟨j, hj, heq⟩ := hS'.replicaNodes_known hi _ (List.fst_mem_of_mem_zipIdx hp)
    rw [heq]
    exact hS.listening j hj
  refine (forM_replicateTo_reliable key [value] _ (net.setNode (D.info i).address
    ((net.node (D.info i).address).extendKey key [value])) hlisten).mono ?_
  rintro - net' ⟨hl, hnode⟩
  refine ⟨hl, ?_⟩
  have hnodes : D.replicaNodes (net.setNode (D.info i).address
      ((net.node (D.info i).address).extendKey key [value])).node key i
        = D.replicaNodes net.node key i := replicaNodes_changesData hlocal
  have hid : ((net.node (D.info i).address).extendKey key [value]).info.id = i :=
    (congrArg NodeInfo.id (hS.info i hi)).trans (D.info_id i)
  rw [hnode, List.zipIdx_map_fst, setNode_node_self, hid, hnodes]
  rfl

end Directory

end TaceChat
