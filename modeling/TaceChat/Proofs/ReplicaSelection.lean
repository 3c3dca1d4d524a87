import Mathlib.Data.Set.Card
import TaceChat.Library.Lists
import TaceChat.Library.Traces
import TaceChat.Model.Concurrent
import TaceChat.Proofs.IdNetwork
import TaceChat.Proofs.ReadOnly
import TaceChat.Proofs.Replicas

/-!
# The selection of replica nodes

`get_replica_nodes` sorts the candidates by id, drops neighbours with the same id, drops the node
itself and the primary node, sorts what is left by load, and takes the first two. `SelectedReplicas`
says which nodes these are, without an algorithm: the smallest candidates in the order by load and
then by id.

`store` replicates to the primary node and the selected ones. `replica_selection` follows its
requests along every run, whatever the other tasks of the node do in the meantime.
-/

set_option autoImplicit false

namespace TaceChat

/-! ### Candidates -/

/-- A node of the successor list or a finger of a number 0, 3, 6, …, other than the node itself and
the primary node. -/
structure IsReplicaCandidate (n : ChordNode) (primary x : NodeInfo) : Prop where
  known : x ∈ n.successorList ∨ ∃ i, i % 3 = 0 ∧ n.fingerTable[i]? = some x
  ne_self : x.id ≠ n.info.id
  ne_primary : x.id ≠ primary.id

/-- The ids of the candidates. -/
def replicaCandidateIds (n : ChordNode) (primary : NodeInfo) : Set NodeId :=
  {id | ∃ x, IsReplicaCandidate n primary x ∧ x.id = id}

/-- `x` has a lower recorded load than `y`, or the same load and a lower id. A load that is not
recorded counts as 0. -/
def PreferredTo (n : ChordNode) (x y : NodeInfo) : Prop :=
  n.loadOf 0 x < n.loadOf 0 y ∨
    n.loadOf 0 x = n.loadOf 0 y ∧ nodeIdToBiguint x.id < nodeIdToBiguint y.id

/-- The nodes that are selected beside the primary node. -/
structure SelectedReplicas (n : ChordNode) (primary : NodeInfo)
    (further : List NodeInfo) : Prop where
  candidate : ∀ x ∈ further, IsReplicaCandidate n primary x
  length : further.length = min (replicationFactor - 1) (replicaCandidateIds n primary).ncard
  nodup : ((primary :: further).map NodeInfo.id).Nodup
  sorted : further.Pairwise (PreferredTo n)
  smallest : ∀ x ∈ further, ∀ y, IsReplicaCandidate n primary y → y.id ∉ further.map NodeInfo.id →
    PreferredTo n x y

namespace ChordNode

variable {n : ChordNode} {primary x y : NodeInfo}

/-- A sampled finger is at a multiple of the step. -/
theorem mem_sampledFingers {every : ℕ} :
    x ∈ n.sampledFingers every ↔ ∃ i, i % every = 0 ∧ n.fingerTable[i]? = some x := by
  simp only [sampledFingers, List.mem_map, List.mem_filter, decide_eq_true_eq]
  constructor
  · rintro ⟨⟨y, i⟩, ⟨hmem, hi⟩, rfl⟩
    exact ⟨i, hi, List.mem_zipIdx_iff_getElem?.mp hmem⟩
  · rintro ⟨i, hi, hx⟩
    exact ⟨(x, i), ⟨List.mem_zipIdx_iff_getElem?.mpr hx, hi⟩, rfl⟩

/-- What the sorted list holds is a candidate. -/
theorem isReplicaCandidate_of_mem (hx : x ∈ n.replicaCandidates primary) :
    IsReplicaCandidate n primary x := by
  obtain ⟨hmem, hself, hprimary⟩ := mem_replicaCandidates.mp hx
  refine ⟨?_, hself, hprimary⟩
  rcases List.mem_append.mp (mem_of_mem_sortDedupById hmem) with hlist | hfinger
  · exact Or.inl hlist
  · exact Or.inr (mem_sampledFingers.mp hfinger)

/-- Of every candidate, the sorted list holds a node with its id. -/
theorem exists_mem_replicaCandidates (hx : IsReplicaCandidate n primary x) :
    ∃ y ∈ n.replicaCandidates primary, y.id = x.id := by
  have hmem : x ∈ n.successorList ++ n.sampledFingers 3 :=
    List.mem_append.mpr (hx.known.imp_right mem_sampledFingers.mpr)
  obtain ⟨y, hy, hid⟩ := exists_mem_sortDedupById hmem
  refine ⟨y, mem_replicaCandidates.mpr ⟨hy, ?_, ?_⟩, hid⟩
  · rw [hid]
    exact hx.ne_self
  · rw [hid]
    exact hx.ne_primary

/-- Whether a node is preferred depends on the ids only. -/
theorem preferredTo_congr (hid : y.id = x.id) {z : NodeInfo} (h : PreferredTo n z y) :
    PreferredTo n z x := by
  unfold PreferredTo loadOf at *
  rwa [hid] at h

/-- The list is sorted: the sort by load keeps the order by id that it finds. -/
theorem replicaCandidates_sorted (n : ChordNode) (primary : NodeInfo) :
    (n.replicaCandidates primary).Pairwise (PreferredTo n) := by
  have hstable := List.insertionSort_stable (r := n.loadLe) (fun _ _ => le_total _ _)
    (fun _ _ _ hab hbc => le_trans hab hbc)
    ((sortDedupById_sorted (n.successorList ++ n.sampledFingers 3)).filter fun x =>
      x.id ≠ n.info.id ∧ x.id ≠ primary.id)
  refine hstable.imp ?_
  rintro a b ⟨hle, hback⟩
  rcases lt_or_eq_of_le hle with hlt | heq
  · exact Or.inl hlt
  · exact Or.inr ⟨heq, hback (le_of_eq heq.symm)⟩

/-- The list has one entry for each id of a candidate. -/
theorem length_replicaCandidates (n : ChordNode) (primary : NodeInfo) :
    (n.replicaCandidates primary).length = (replicaCandidateIds n primary).ncard := by
  have hset : replicaCandidateIds n primary =
      (((n.replicaCandidates primary).map NodeInfo.id).toFinset : Set NodeId) := by
    ext id
    simp only [replicaCandidateIds, Set.mem_ofPred_eq, List.coe_toFinset, List.mem_map]
    constructor
    · rintro ⟨x, hx, rfl⟩
      exact exists_mem_replicaCandidates hx
    · rintro ⟨x, hx, rfl⟩
      exact ⟨x, isReplicaCandidate_of_mem hx, rfl⟩
  rw [hset, Set.ncard_coe_finset, List.toFinset_card_of_nodup (replicaCandidates_nodup n primary),
    List.length_map]

/-- The first entries of the list are the selected nodes. -/
theorem selectedReplicas (n : ChordNode) (primary : NodeInfo) :
    SelectedReplicas n primary ((n.replicaCandidates primary).take (replicationFactor - 1)) where
  candidate x hx := isReplicaCandidate_of_mem (List.mem_of_mem_take hx)
  length := by rw [List.length_take, length_replicaCandidates]
  nodup := by
    rw [List.map_cons, List.nodup_cons]
    refine ⟨?_, (replicaCandidates_nodup n primary).sublist ((List.take_sublist _ _).map _)⟩
    intro hmem
    obtain ⟨x, hx, hid⟩ := List.mem_map.mp hmem
    exact (mem_replicaCandidates.mp (List.mem_of_mem_take hx)).2.2 hid
  sorted := (replicaCandidates_sorted n primary).sublist (List.take_sublist _ _)
  smallest x hx y hy hnot := by
    obtain ⟨z, hz, hid⟩ := exists_mem_replicaCandidates hy
    have hsorted := replicaCandidates_sorted n primary
    rw [← List.take_append_drop (replicationFactor - 1) (n.replicaCandidates primary)] at hz hsorted
    -- The entry with the id of `y` was not taken, so it comes later.
    rcases List.mem_append.mp hz with htaken | hleft
    · exact absurd (List.mem_map.mpr ⟨z, htaken, hid⟩) hnot
    · exact preferredTo_congr hid ((List.pairwise_append.mp hsorted).2.2 x hx z hleft)

end ChordNode

/-- `get_replica_nodes` returns the primary node that its lookup finds, and the nodes that are
selected beside it. -/
theorem getReplicaNodes_selected {σ : Type} {env : NodeEnv σ} {key : NodeId} {w w' : σ}
    {primary : NodeInfo} (h : findSuccessorWithVirtualNodes env key w = some (primary, w')) :
    ∃ further, getReplicaNodes env key w = some (primary :: further, w') ∧
      SelectedReplicas (env.node w') primary further := by
  refine ⟨_, ?_, ChordNode.selectedReplicas (env.node w') primary⟩
  unfold getReplicaNodes
  exact (congrArg (fun r => r >>= _) h).trans rfl

/-! ### The requests of a store -/

/-- A request to hold replicas. -/
def IsReplication : DhtMessage → Bool
  | .replicateData _ _ _ => true
  | _ => false

/-- The requests that replicate a value to the given nodes, all but the node `self` itself. -/
def replications (key : NodeId) (value : Value) (self : NodeId) (nodes : List NodeInfo) :
    List (String × DhtMessage) :=
  (nodes.zipIdx.filter fun p => p.1.id ≠ self).map fun p =>
    (p.1.address, .replicateData key [value] (UInt8.ofNat (p.2 + 1)))

/-- The nodes that `get_replica_nodes` selects when it begins in the state `s`. It reads the
successor list, the fingers and the loads one after the other, and other tasks may change the state
by `E` in between. -/
def SelectedAmongTasks (E : ChordNode → ChordNode → Prop) (s : ChordNode) (primary : NodeInfo)
    (further : List NodeInfo) : Prop :=
  ∃ before between self, E s before ∧ E before between ∧ E between self ∧
    SelectedReplicas { self with
      successorList := before.successorList, fingerTable := between.fingerTable } primary further

section Requests

open Prog

/-- Lookups replicate nothing. -/
theorem not_isReplication_of_isLookup {m : DhtMessage} (h : Concurrent.IsLookup m) :
    IsReplication m = false := by
  cases m <;> first | rfl | exact h.elim

variable {E : ChordNode → ChordNode → Prop} {s s' : ChordNode} {reqs : List (String × DhtMessage)}

/-- The requests of the lookup of a primary node, and what becomes of the state meanwhile. -/
theorem findSuccessorWithVirtualNodes_trace (hrefl : ∀ s, E s s)
    (htrans : ∀ s t u, E s t → E t u → E s u) {key : NodeId} {primary : NodeInfo}
    (t : Trace E (Concurrent.findSuccessorWithVirtualNodes key) s reqs primary s') :
    E s s' ∧ ∀ m ∈ reqs, IsReplication m.2 = false := by
  have hlooks := Concurrent.looksUp_findSuccessorWithVirtualNodes key
  have hspec :
      Spec (fun _ => True) E (Concurrent.findSuccessorWithVirtualNodes key) fun _ => True :=
    hlooks.reads.spec hrefl
  have hmeets : Meets (fun _ => True) (fun m => IsReplication m.2 = false) (fun _ _ => True)
      (Concurrent.findSuccessorWithVirtualNodes key) fun _ => True :=
    hlooks.meets fun m hm => not_isReplication_of_isLookup hm
  exact ⟨(hspec.trace htrans (fun _ _ h _ => ⟨trivial, h⟩) t trivial).2.1, (hmeets.trace t).1⟩

/-- The loop over the replica nodes sends to each of them but the node itself, in their order. -/
theorem replicateTo_trace (hrefl : ∀ s, E s s) (hinfo : ∀ s s', E s s' → s'.info = s.info)
    (key : NodeId) (value : Value) (nodes : List (NodeInfo × ℕ)) :
    ∀ {s s' : ChordNode} {reqs : List (String × DhtMessage)},
      Trace E (forM nodes fun p => Concurrent.replicateTo key [value] p.2 p.1) s reqs () s' →
      reqs = (nodes.filter fun p => p.1.id ≠ s.info.id).map fun p =>
        (p.1.address, .replicateData key [value] (UInt8.ofNat (p.2 + 1))) := by
  induction nodes with
  | nil =>
    intro s s' reqs t
    exact (Trace.of_done (show Trace E (.done ()) s reqs () s' from t)).1
  | cons p nodes ih =>
    intro s s' reqs t
    rw [List.forM_cons] at t
    obtain ⟨reqs₁, reqs₂, ⟨⟩, s₁, rfl, tsend, trest⟩ := t.of_bind hrefl
    obtain ⟨self, hself, tsend⟩ := Trace.of_read_next tsend
    have hid : self.info = s.info := hinfo s self hself
    by_cases hskip : p.1.id = s.info.id
    · rw [if_pos (hid ▸ hskip)] at tsend
      obtain ⟨rfl, -, h₁⟩ := Trace.of_done tsend
      rw [List.filter_cons_of_neg (by simpa using hskip), List.nil_append, ih trest,
        hinfo self s₁ h₁, hid]
    · rw [if_neg (hid ▸ hskip)] at tsend
      cases tsend with
      | request r tsend =>
        obtain ⟨rfl, -, h₁⟩ := Trace.of_done tsend
        rw [List.filter_cons_of_pos (by simpa using hskip), List.map_cons, ih trest,
          hinfo self s₁ h₁, hid]
        rfl

/-- What a run of `store` sends: the requests of the lookup of the primary node, and then the
replications to the primary node and to the nodes that are selected beside it. -/
theorem store_trace (hrefl : ∀ s, E s s) (htrans : ∀ s t u, E s t → E t u → E s u)
    (hinfo : ∀ s s', E s s' → s'.info = s.info) {key : NodeId} {value : Value}
    (t : Trace E (Concurrent.store key value) s reqs () s') :
    ∃ s₁ s₂ lookup primary further, E s s₁ ∧
      Trace E (Concurrent.findSuccessorWithVirtualNodes key) (s₁.extendKey key [value]) lookup
        primary s₂ ∧
      SelectedAmongTasks E s₂ primary further ∧
      reqs = lookup ++ replications key value s.info.id (primary :: further) := by
  obtain ⟨s₁, h₁, t⟩ := Trace.of_write_next t
  obtain ⟨found, sends, nodes, s₃, rfl, tnodes, tsends⟩ := Trace.of_bind hrefl t
  obtain ⟨lookup, none, primary, s₂, rfl, tlookup, tnodes⟩ := Trace.of_bind hrefl tnodes
  obtain ⟨before, hbefore, tnodes⟩ := Trace.of_read_next tnodes
  obtain ⟨between, hbetween, tnodes⟩ := Trace.of_read_next tnodes
  obtain ⟨self, hself, tnodes⟩ := Trace.of_read_next tnodes
  obtain ⟨rfl, rfl, h₃⟩ := Trace.of_done tnodes
  refine ⟨s₁, s₂, lookup, primary, _, h₁, tlookup,
    ⟨before, between, self, hbefore, hbetween, hself, ChordNode.selectedReplicas _ _⟩, ?_⟩
  -- The node keeps its info from the append to the last request.
  have hlookup := (findSuccessorWithVirtualNodes_trace hrefl htrans tlookup).1
  have hid : s₃.info = s.info := by
    rw [hinfo _ _ h₃, hinfo _ _ hself, hinfo _ _ hbetween, hinfo _ _ hbefore, hinfo _ _ hlookup]
    exact hinfo s s₁ h₁
  rw [List.append_nil, replicateTo_trace hrefl hinfo key value _ tsends, hid]
  rfl

end Requests

/-- Whatever the tables of the node hold, `get_replica_nodes` returns the primary node that the
lookup returns, and beside it as many further nodes as there are candidates, up to
`REPLICATION_FACTOR - 1`: the smallest candidates in the order by load and id, with distinct ids,
without the node itself. And what `store` sends at any time, among any other tasks, is what its
lookup of the primary node asks and then one replication to each of these nodes, except to the
node itself: they are at most three, with distinct ids. -/
theorem replica_selection {σ : Type} (env : NodeEnv σ) (E : ChordNode → ChordNode → Prop)
    (key : NodeId) (value : Value) (hrefl : ∀ s, E s s) (htrans : ∀ s t u, E s t → E t u → E s u)
    (hinfo : ∀ s s', E s s' → s'.info = s.info) :
    (∀ w primary w', findSuccessorWithVirtualNodes env key w = some (primary, w') →
      ∃ further, getReplicaNodes env key w = some (primary :: further, w') ∧
        SelectedReplicas (env.node w') primary further) ∧
    ∀ s reqs, Prog.Sent E (Concurrent.store key value) s reqs →
      ∃ s₁ s₂ lookup primary further, E s s₁ ∧
        Prog.Trace E (Concurrent.findSuccessorWithVirtualNodes key) (s₁.extendKey key [value])
          lookup primary s₂ ∧
        (∀ m ∈ lookup, IsReplication m.2 = false) ∧
        SelectedAmongTasks E s₂ primary further ∧
        (primary :: further).length ≤ 3 ∧ ((primary :: further).map NodeInfo.id).Nodup ∧
        reqs <+: lookup ++ replications key value s.info.id (primary :: further) := by
  refine ⟨fun w primary w' h => getReplicaNodes_selected h, fun s reqs hsent => ?_⟩
  obtain ⟨rest, ⟨⟩, s', t⟩ := hsent.completes hrefl
  obtain ⟨s₁, s₂, lookup, primary, further, h₁, tlookup, hselected, hreqs⟩ :=
    store_trace hrefl htrans hinfo t
  have hlookup := (findSuccessorWithVirtualNodes_trace hrefl htrans tlookup).2
  obtain ⟨_, _, _, -, -, -, hchosen⟩ := id hselected
  refine ⟨s₁, s₂, lookup, primary, further, h₁, tlookup, hlookup, hselected, ?_, hchosen.nodup,
    rest, hreqs⟩
  have hfactor : replicationFactor = 3 := rfl
  rw [List.length_cons, hchosen.length]
  omega

/-- A node whose calls all fail. -/
def cutOff : NodeEnv ChordNode := ⟨id, fun n _ => n, fun _ _ => return none⟩

/-- `replica_selection` for the node 10 with the successor 20 and a key that it takes itself. -/
theorem replica_selection_pair : ∃ further w',
    getReplicaNodes cutOff (biguintToNodeId 10)
        (linkedNode otherOfPair (fun _ => none) (biguintToNodeId 10)) =
      some (infoOf (biguintToNodeId 10) :: further, w') ∧
    SelectedReplicas w' (infoOf (biguintToNodeId 10)) further := by
  have hcovers : (linkedNode otherOfPair (fun _ => none) (biguintToNodeId 10)).Covers
      (biguintToNodeId 10) := ChordNode.covers_of_mem (List.mem_replicate.mpr ⟨by decide, rfl⟩)
  have hprimary : Returns (findSuccessorWithVirtualNodes cutOff (biguintToNodeId 10))
      (linkedNode otherOfPair (fun _ => none) (biguintToNodeId 10)) fun primary _ =>
        primary = infoOf (biguintToNodeId 10) := by
    simp only [findSuccessorWithVirtualNodes, returns_bind, returns_safeLock]
    refine returns_ite.mpr ⟨fun _ => returns_pure.mpr rfl, ?_⟩
    exact fun hnot => absurd hcovers hnot
  obtain ⟨_, w', hrun, rfl⟩ := hprimary
  obtain ⟨further, hnodes, hselected⟩ := (replica_selection cutOff Eq (biguintToNodeId 10) []
    (fun _ => rfl) (fun _ _ _ => Eq.trans) (fun _ _ h => h ▸ rfl)).1 _ _ _ hrun
  exact ⟨further, w', hnodes, hselected⟩

end TaceChat
