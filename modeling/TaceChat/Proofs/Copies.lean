import Mathlib.Algebra.Order.BigOperators.Group.List
import TaceChat.Proofs.Replicas
import TaceChat.Proofs.Rounds

/-!
# How often a value is held

`ChordNode.copies` counts a value in the list of a key. `Directory.Bounded k v c` says that no node
holds the value `v` under the key `k` more than `c` times, together with what bounds the lists that
a node reads its peers from. There is one lemma for each operation, for every medium: a store adds
at most one copy at each node (`Bounded.store`), a join and a stabilization at most double the
bound (`Bounded.join`, `Bounded.stabilize`), and a recovery multiplies it by the number of nodes it
asks, plus one (`Bounded.checkPredecessor`).
-/

set_option autoImplicit false

namespace TaceChat

/-- How often a list of entries has the value under the key. -/
def occurrences (k : NodeId) (v : Value) (data : List (NodeId × List Value)) : ℕ :=
  (data.map fun e => if e.1 = k then e.2.count v else 0).sum

/-- Number of nodes that a recovery asks at most: the successor list and every fourth finger. -/
def recoverySources : ℕ := successorListSize + M / 4

namespace ChordNode

variable {n : ChordNode} {k : NodeId} {v : Value}

/-- How often the node holds the value under the key. -/
def copies (n : ChordNode) (k : NodeId) (v : Value) : ℕ := (n.valuesAt k).count v

/-- The copies after an append are counted in both parts. -/
theorem copies_extendKey (n : ChordNode) (key : NodeId) (values : List Value) :
    (n.extendKey key values).copies k v
      = n.copies k v + if key = k then values.count v else 0 := by
  unfold copies
  rcases eq_or_ne key k with rfl | hk
  · rw [valuesAt_extendKey, List.count_append, if_pos rfl]
  · rw [valuesAt_extendKey_of_ne hk.symm, if_neg hk, Nat.add_zero]

/-- In a map the value occurs in the entry of its key only. -/
theorem sum_entries (l : List (Sigma fun _ : NodeId => List Value)) (h : l.NodupKeys) :
    (l.map fun e => if e.1 = k then e.2.count v else 0).sum
      = ((l.dlookup k).getD []).count v := by
  induction l with
  | nil => rfl
  | cons e l ih =>
    obtain ⟨key, values⟩ := e
    rw [List.nodupKeys_cons] at h
    rw [List.map_cons, List.sum_cons, ih h.2]
    rcases eq_or_ne key k with rfl | hk
    · rw [List.dlookup_cons_eq, List.dlookup_eq_none.mpr h.1, if_pos rfl]
      rfl
    · rw [List.dlookup_cons_ne _ _ hk.symm, if_neg hk, Nat.zero_add]

/-- A data range has no more copies than the node that it is read from. -/
theorem occurrences_getDataRange_le (n : ChordNode) (start «end» : NodeId) :
    occurrences k v (n.getDataRange start «end») ≤ n.copies k v := by
  have hall := sum_entries (k := k) (v := v) n.data.entries n.data.nodupKeys
  unfold occurrences getDataRange
  rw [List.map_map, copies, valuesAt, AList.lookup, ← hall]
  exact (List.filter_sublist.map _).sum_le_sum fun _ _ => Nat.zero_le _

/-- The recovered values add up. -/
theorem copies_recover (replicas : List (NodeId × List Value)) : ∀ n : ChordNode,
    (n.recover replicas).copies k v = n.copies k v + occurrences k v replicas := by
  induction replicas with
  | nil => exact fun _ => rfl
  | cons e replicas ih =>
    intro n
    rw [recover, List.foldl_cons, ← recover, ih, copies_extendKey, occurrences, occurrences,
      List.map_cons, List.sum_cons, Nat.add_assoc]

/-- A recovery changes data only. -/
theorem recover_frame (replicas : List (NodeId × List Value)) : ∀ n : ChordNode,
    ∃ d, n.recover replicas = { n with data := d } := by
  induction replicas with
  | nil => exact fun n => ⟨n.data, rfl⟩
  | cons e replicas ih =>
    intro n
    obtain ⟨d, hd⟩ := ih (n.extendKey e.1 e.2)
    exact ⟨d, hd⟩

end ChordNode

namespace Directory

open Network

/-- The network serves the directory, and the lists that a node reads its peers from have the sizes
that the source gives them. -/
structure Sized {φ : Type} (D : Directory) (net : Network φ) : Prop extends D.Serves net where
  successorList : ∀ i ∈ D.ids, (D.at' net.node i).successorList.length ≤ successorListSize
  fingerTable : ∀ i ∈ D.ids, (D.at' net.node i).fingerTable.length ≤ M

/-- No node holds the value under the key more than `c` times. -/
structure Bounded {φ : Type} (D : Directory) (k : NodeId) (v : Value) (c : ℕ) (net : Network φ) :
    Prop extends D.Sized net where
  copies : ∀ i ∈ D.ids, (D.at' net.node i).copies k v ≤ c

variable {D : Directory} {φ : Type} {medium : Medium φ} {depth : ℕ} {net net' : Network φ}
  {k : NodeId} {v : Value} {c : ℕ} {i j : NodeId}

/-- The same nodes have tables of the same size. -/
theorem Sized.sameNodes (h : D.Sized net) (hs : SameNodes net net') : D.Sized net' where
  toServes := h.toServes.sameNodes hs
  successorList := by rw [hs.1]; exact h.successorList
  fingerTable := by rw [hs.1]; exact h.fingerTable

/-- The same nodes hold the same copies. -/
theorem Bounded.sameNodes (h : D.Bounded k v c net) (hs : SameNodes net net') :
    D.Bounded k v c net' where
  toSized := h.toSized.sameNodes hs
  copies := by rw [hs.1]; exact h.copies

/-- The medium holds no copies. -/
theorem Bounded.withMedium (h : D.Bounded k v c net) (s : φ) :
    D.Bounded k v c { net with medium := s } :=
  h.sameNodes ⟨rfl, rfl⟩

/-- A larger bound. -/
theorem Bounded.mono (h : D.Bounded k v c net) {c' : ℕ} (hle : c ≤ c') : D.Bounded k v c' net :=
  ⟨h.toSized, fun i hi => (h.copies i hi).trans hle⟩

/-- A write that keeps to known infos and to the sizes of the lists. -/
theorem Sized.setNode (h : D.Sized net) (hi : i ∈ D.ids) {n : ChordNode} (hinfo : n.info = D.info i)
    (hn : Reports D.Known n) (hlist : n.successorList.length ≤ successorListSize)
    (hfinger : n.fingerTable.length ≤ M) : D.Sized (net.setNode (D.info i).address n) := by
  refine ⟨h.toServes.setNode hi hinfo hn, fun j hj => ?_, fun j hj => ?_⟩ <;>
  · rw [at'_setNode hi hj]
    split
    · assumption
    · first
      | exact h.successorList j hj
      | exact h.fingerTable j hj

/-- The same write, when it leaves the data of the node alone. -/
theorem Bounded.setNode (h : D.Bounded k v c net) (hi : i ∈ D.ids) {n : ChordNode}
    (hinfo : n.info = D.info i) (hn : Reports D.Known n)
    (hlist : n.successorList.length ≤ successorListSize) (hfinger : n.fingerTable.length ≤ M)
    (hdata : n.data = (D.at' net.node i).data) :
    D.Bounded k v c (net.setNode (D.info i).address n) := by
  refine ⟨h.toSized.setNode hi hinfo hn hlist hfinger, fun j hj => ?_⟩
  rw [at'_setNode hi hj]
  split
  · have hcopies : n.copies k v = (D.at' net.node i).copies k v := by
      rw [ChordNode.copies, ChordNode.copies, ChordNode.valuesAt, ChordNode.valuesAt, hdata]
    exact hcopies ▸ h.copies i hi
  · exact h.copies j hj

/-- A change of data keeps the sizes. -/
theorem Sized.changesData {P : NodeId → Prop} (h : D.Sized net) (hdata : ChangesData P net net') :
    D.Sized net' := by
  refine ⟨h.toServes.changesData hdata, fun i hi => ?_, fun i hi => ?_⟩ <;>
    obtain ⟨d, hd, -⟩ := hdata.2 (D.info i).address
  · rw [at', hd]
    exact h.successorList i hi
  · rw [at', hd]
    exact h.fingerTable i hi

/-! ### Stores -/

/-- A store adds one copy of its value at each node, at most. -/
theorem Bounded.store (h : D.Bounded k v c net) (hi : i ∈ D.ids) (key : NodeId) (value : Value) :
    Returns (store (env medium (depth + 1) (D.info i).address) key value) net fun _ net' =>
      D.Bounded k v (c + if key = k then [value].count v else 0) net' := by
  have hS := h.toServes
  refine ((store_changesData (P := fun _ => True) trivial value).and
    (store_appends hS.closed (hS.reports i hi) key value)).mono ?_
  rintro - net' ⟨hdata, -, primary, l, hprimary, hsub, hnode⟩
  refine ⟨h.toSized.changesData hdata, fun j hj => ?_⟩
  have hid : (net.node (D.info i).address).info.id = i :=
    (congrArg NodeInfo.id (hS.info i hi)).trans (D.info_id i)
  rw [hid] at hsub
  have hnodup : ((D.info i).address :: l).Nodup := List.nodup_cons.mpr
    ⟨fun hmem => hS.notMem_replicaAddresses hi hprimary (hsub.subset hmem),
      (hS.replicaAddresses_nodup hi hprimary).sublist hsub⟩
  have hall : net'.node = ((D.info i).address :: l).foldl (appendAt key [value]) net.node := hnode
  rw [at', hall]
  by_cases hmem : (D.info j).address ∈ (D.info i).address :: l
  · rw [foldl_appendAt_of_mem _ hnodup hmem, ChordNode.copies_extendKey]
    exact Nat.add_le_add_right (h.copies j hj) _
  · rw [foldl_appendAt_of_notMem _ hmem]
    exact (h.copies j hj).trans (Nat.le_add_right _ _)

/-- A request to store does the same, or nothing. -/
theorem Bounded.call_store (h : D.Bounded k v c net) (hi : i ∈ D.ids) (key : NodeId)
    (value : Value) :
    Returns (call medium (depth + 2) (D.info i).address (.store key value)) net fun _ net' =>
      D.Bounded k v (c + if key = k then [value].count v else 0) net' := by
  refine returns_call_of_handler (fun s => ?_) fun s => ?_
  · exact (h.withMedium s).mono (Nat.le_add_right _ _)
  · simp only [handleConnection.eq_def, returns_bind, returns_pure, and_self]
    exact (h.withMedium s).store hi key value

/-- A loop that stores each value of a list of entries. -/
theorem Bounded.forEachValue {act : NodeId → Value → NodeM (Network φ) Unit}
    (hact : ∀ {c : ℕ} {net : Network φ} (key : NodeId) (value : Value), D.Bounded k v c net →
      Returns (act key value) net fun _ net' =>
        D.Bounded k v (c + if key = k then [value].count v else 0) net')
    (data : List (NodeId × List Value)) :
    ∀ {c : ℕ} {net : Network φ}, D.Bounded k v c net →
      Returns (forEachValue data act) net fun _ net' =>
        D.Bounded k v (c + occurrences k v data) net' := by
  have hvalues : ∀ (key : NodeId) (values : List Value) {c : ℕ} {net : Network φ},
      D.Bounded k v c net → Returns (forM values fun value => act key value) net fun _ net' =>
        D.Bounded k v (c + if key = k then values.count v else 0) net' := by
    intro key values
    -- One entry first, value by value.
    induction values with
    | nil => exact fun h => returns_pure.mpr (by simpa using h)
    | cons value values ih =>
      intro c net h
      rw [List.forM_cons]
      refine (hact key value h).bind ?_
      rintro - net₁ h₁
      refine (ih h₁).mono fun _ _ h₂ => h₂.mono (Nat.le_of_eq ?_)
      split
      · rw [Nat.add_assoc, ← List.count_append, List.singleton_append]
      · rfl
  -- Then the entries one after the other.
  induction data with
  | nil => exact fun h => returns_pure.mpr h
  | cons e data ih =>
    intro c net h
    unfold TaceChat.forEachValue
    rw [List.forM_cons]
    refine (hvalues e.1 e.2 h).bind ?_
    rintro - net₁ h₁
    refine (ih h₁).mono fun _ _ h₂ => h₂.mono (Nat.le_of_eq ?_)
    rw [occurrences, occurrences, List.map_cons, List.sum_cons, Nat.add_assoc]

/-! ### Transfers -/

/-- The write of a successor. -/
theorem Bounded.withSuccessor (h : D.Bounded k v c net) (hi : i ∈ D.ids) {x : NodeInfo}
    (hx : D.Known x) : D.Bounded k v c (net.setNode (D.info i).address
      { net.node (D.info i).address with successor := x }) := by
  obtain ⟨hinfo, -, hlist, hpred, hfinger⟩ := h.reports i hi
  exact h.setNode hi (h.info i hi) ⟨hinfo, hx, hlist, hpred, hfinger⟩ (h.successorList i hi)
    (h.fingerTable i hi) rfl

/-- A node that joins doubles the bound at most: it stores what its successor holds. -/
theorem Bounded.join (h : D.Bounded k v c net) (hi : i ∈ D.ids) (bootstrap : Option NodeId)
    (hb : ∀ b ∈ bootstrap, b ∈ D.ids) :
    Returns (join (env medium (depth + 2) (D.info i).address)
      (bootstrap.map fun b => (D.info b).address)) net
      fun _ net' => D.Bounded k v (2 * c) net' := by
  have hdouble : c ≤ 2 * c := Nat.le_mul_of_pos_left c (by omega)
  obtain ⟨hinfo, hsucc, hlist, hpred, hfinger⟩ := h.reports i hi
  have hself : (net.node (D.info i).address).info = D.info i := h.info i hi
  cases bootstrap with
  | none =>
    simp only [TaceChat.join, Option.map_none, returns_safeUpdate, env_node, env_setNode]
    -- A new network changes the pointers of the node only, so it holds no more copies.
    have hnew : Reports D.Known (net.node (D.info i).address).startNewNetwork :=
      ⟨hinfo, hinfo, fun x hx => List.eq_of_mem_replicate hx ▸ hinfo,
        fun _ hp => (by cases hp), hfinger⟩
    have hwrite : D.Bounded k v c (net.setNode (D.info i).address
        (net.node (D.info i).address).startNewNetwork) :=
      h.setNode hi hself hnew List.length_replicate.le (h.fingerTable i hi) rfl
    exact hwrite.mono hdouble
  | some b =>
    have hbK := known_info (hb b rfl)
    simp only [TaceChat.join, Option.map_some, returns_bind]
    refine (findJoinSuccessor_finds h.closed hbK).mono ?_
    rintro r net₁ ⟨hs, hr⟩
    have h₁ := h.sameNodes hs
    cases r with
    | none => exact returns_pure.mpr (h₁.mono hdouble)
    | some x =>
      -- The successor hands its range over: at most the `c` copies it has are stored again.
      obtain ⟨s, hs, rfl⟩ := hr x rfl
      have h₂ := h₁.withSuccessor hi (known_info hs)
      simp only [returns_bind, returns_safeUpdate, pullData, returns_safeLock, env_node,
        env_setNode, env_callNode]
      refine (call_read rfl).mono ?_
      rintro r net₃ ⟨hs₃, hr⟩
      have h₃ := h₂.sameNodes hs₃
      rcases hr with rfl | rfl
      · exact returns_pure.mpr (h₃.mono hdouble)
      · refine (Bounded.forEachValue (fun key value h => h.store hi key value) _ h₃).mono ?_
        refine fun _ _ h₄ => h₄.mono ?_
        rw [Nat.two_mul]
        exact Nat.add_le_add_left ((ChordNode.occurrences_getDataRange_le _ _ _).trans
          (h₂.copies s hs)) c

/-- The handler of a notification doubles the bound at most: it stores what the node holds at the
notifier. -/
theorem Bounded.notify (h : D.Bounded k v c net) (hi : i ∈ D.ids) (hj : j ∈ D.ids) :
    Returns (notify (env medium (depth + 2) (D.info i).address) (D.info j)) net
      fun _ net' => D.Bounded k v (2 * c) net' := by
  have hdouble : c ≤ 2 * c := Nat.le_mul_of_pos_left c (by omega)
  by_cases hself : (D.info j).id = (net.node (D.info i).address).info.id
  · exact (returns_notify_refused (Or.inl hself)).mpr (h.mono hdouble)
  · cases hupdate : (net.node (D.info i).address).notifyUpdate (D.info j) with
    | none => exact (returns_notify_refused (Or.inr hupdate)).mpr (h.mono hdouble)
    | some updated =>
      obtain ⟨hframe, hsucc⟩ := ChordNode.notifyUpdate_frame hupdate
      obtain ⟨hinfo, hsucc', hlist, hpred, hfinger⟩ := h.reports i hi
      have h₁ : D.Bounded k v c (net.setNode (D.info i).address updated) := by
        rw [hframe]
        refine h.setNode hi (h.info i hi) ⟨hinfo, ?_, hlist, ?_, hfinger⟩ (h.successorList i hi)
          (h.fingerTable i hi) rfl
        · rcases hsucc with heq | heq
          · exact heq ▸ known_info hj
          · exact heq ▸ hsucc'
        · rintro x ⟨⟩
          exact known_info hj
      rw [returns_notify_accepted hself hupdate]
      refine (Bounded.forEachValue (fun key value h => ?_) _ h₁).mono fun _ _ h₂ => h₂.mono ?_
      · exact returns_discard.mpr (h.call_store hj key value)
      · have hcopies : updated.copies k v ≤ c := by
          have := h₁.copies i hi
          rwa [at', setNode_node_self] at this
        rw [Nat.two_mul]
        exact Nat.add_le_add_left ((ChordNode.occurrences_getDataRange_le _ _ _).trans hcopies) c

/-- The request to notify a member. -/
theorem Bounded.call_notify (h : D.Bounded k v c net) (hi : i ∈ D.ids) (hj : j ∈ D.ids) :
    Returns (call medium (depth + 3) (D.info i).address
      (.notify (D.info j).id (D.info j).address (D.info j).apiAddress)) net
      fun _ net' => D.Bounded k v (2 * c) net' := by
  refine returns_call_of_handler (fun s => ?_) fun s => ?_
  · exact (h.withMedium s).mono (Nat.le_mul_of_pos_left c (by omega))
  · simp only [handleConnection.eq_def, returns_bind, returns_pure, and_self]
    exact (h.withMedium s).notify hi hj

/-- A new successor list has the size of one. -/
theorem length_fillSuccessorList {head : NodeInfo} {rest : List NodeInfo}
    (h : rest.length < successorListSize) :
    (fillSuccessorList head rest).length = successorListSize := by
  rw [fillSuccessorList, List.length_append, List.length_replicate, List.length_cons]
  omega

/-- A new successor list has no copies. -/
theorem Bounded.updateSuccessorList (h : D.Bounded k v c net) (hi : i ∈ D.ids) :
    Returns (updateSuccessorList (env medium (depth + 1) (D.info i).address)) net
      fun _ net' => D.Bounded k v c net' := by
  refine (updateSuccessorList_finds h.closed (h.reports i hi)).mono ?_
  rintro - net' ⟨rest, hlen, hrest, hs⟩
  obtain ⟨hinfo, hsucc, -, hpred, hfinger⟩ := h.reports i hi
  have hlist : ∀ x ∈ fillSuccessorList (net.node (D.info i).address).successor rest, D.Known x := by
    have hall : ∀ x ∈ (net.node (D.info i).address).successor :: rest, D.Known x :=
      List.forall_mem_cons.mpr ⟨hsucc, hrest⟩
    intro x hx
    rcases List.mem_append.mp hx with hx | hx
    · exact hall x hx
    · exact List.eq_of_mem_replicate hx ▸ hall _ (List.getLast_mem _)
  have hwrite : D.Bounded k v c (net.withList (D.info i).address
      (fillSuccessorList (net.node (D.info i).address).successor rest)) :=
    h.setNode hi (h.info i hi) ⟨hinfo, hsucc, hlist, hpred, hfinger⟩
      (length_fillSuccessorList hlen).le (h.fingerTable i hi) rfl
  exact hwrite.sameNodes hs

/-- What a node does when its successor has answered it doubles the bound at most. -/
theorem Bounded.notifySuccessor (h : D.Bounded k v c net) (hi : i ∈ D.ids) (successor : NodeInfo)
    (x : Option NodeInfo) (hx : ∀ y, x = some y → D.Known y) :
    Returns (notifySuccessor (env medium (depth + 3) (D.info i).address) successor
      (.predecessor (x.map NodeInfo.id) (x.map NodeInfo.address) (x.map NodeInfo.apiAddress))) net
      fun _ net' => D.Bounded k v (2 * c) net' := by
  have hrest : ∀ {net : Network φ}, D.Bounded k v c net → Returns (do
      let self ← (env medium (depth + 3) (D.info i).address).safeLock
      discard <| (env medium (depth + 3) (D.info i).address).callNode self.successor.address
        (.notify self.info.id self.info.address self.info.apiAddress)
      TaceChat.updateSuccessorList (env medium (depth + 3) (D.info i).address)) net
        fun _ net' => D.Bounded k v (2 * c) net' := by
    intro net h
    have hself : (net.node (D.info i).address).info = D.info i := h.info i hi
    obtain ⟨j, hj, hsucc⟩ := (h.reports i hi).successor
    have hsucc : (net.node (D.info i).address).successor = D.info j := hsucc
    simp only [returns_bind, returns_safeLock, env_node, env_callNode, returns_discard, hself,
      hsucc]
    refine (h.call_notify hj hi).mono ?_
    rintro - net₁ h₁
    exact h₁.updateSuccessorList hi
  cases x with
  | none => exact hrest h
  | some x =>
    refine returns_bind.mpr (returns_safeUpdate.mpr (hrest ?_))
    rw [env_node, env_setNode]
    unfold ChordNode.adoptSuccessor
    split
    · exact h.withSuccessor hi (hx x rfl)
    · rwa [setNode_same]

/-- A stabilization doubles the bound at most, by its notification. -/
theorem Bounded.stabilize (h : D.Bounded k v c net) (hi : i ∈ D.ids) :
    Returns (stabilize (env medium (depth + 3) (D.info i).address)) net
      fun _ net' => D.Bounded k v (2 * c) net' := by
  have hdouble : c ≤ 2 * c := Nat.le_mul_of_pos_left c (by omega)
  obtain ⟨hinfo, hsucc, hlist, hpred, hfinger⟩ := h.reports i hi
  simp only [TaceChat.stabilize, returns_bind, returns_safeLock, env_node, env_callNode]
  refine returns_ite.mpr ⟨fun _ => ?_, fun _ => ?_⟩
  · -- The node is alone.
    have hclear : D.Bounded k v c (net.setNode (D.info i).address
        { net.node (D.info i).address with predecessor := none }) :=
      h.setNode hi (h.info i hi) ⟨hinfo, hsucc, hlist, fun _ hp => (by cases hp), hfinger⟩
        (h.successorList i hi) (h.fingerTable i hi) rfl
    exact returns_safeUpdate.mpr (hclear.mono hdouble)
  · refine returns_bind.mpr ((call_read rfl).mono ?_)
    rintro r net₁ ⟨hs, rfl | rfl⟩
    · -- The successor does not answer.
      have h₁ := h.sameNodes hs
      simp only [replaceSuccessor, findNextAvailableSuccessor, returns_bind, returns_safeLock,
        env_node]
      refine (firstReachable_finds (h₁.reports i hi).successorList).mono ?_
      rintro x net₂ ⟨hs₂, hx⟩
      have h₂ := h₁.sameNodes hs₂
      cases x with
      | none => exact returns_pure.mpr (h₂.mono hdouble)
      | some x =>
        simp only [returns_bind, returns_safeUpdate, env_node, env_setNode]
        refine ((h₂.withSuccessor hi (hx x rfl)).updateSuccessorList hi).mono ?_
        exact fun _ _ h₃ => h₃.mono hdouble
    · exact (h.sameNodes hs).notifySuccessor hi _ _ (h.closed _ hsucc).predecessor

/-- The refresh of a finger stores nothing. -/
theorem Bounded.fixFingers (h : D.Bounded k v c net) (hi : i ∈ D.ids) (finger : ℕ) :
    Returns (fixFingers (env medium (depth + 1) (D.info i).address) finger) net
      fun _ net' => D.Bounded k v c net' := by
  simp only [TaceChat.fixFingers, returns_bind, returns_safeLock, env_node]
  refine (findSuccessor_finds h.closed (h.reports i hi) _).mono ?_
  rintro x net₁ ⟨hs, hx⟩
  have h₁ := h.sameNodes hs
  obtain ⟨hinfo, hsucc, hlist, hpred, hfinger⟩ := h₁.reports i hi
  have hset : ∀ y ∈ (D.at' net₁.node i).fingerTable.set finger x, D.Known y := fun y hy =>
    (List.mem_or_eq_of_mem_set hy).elim (hfinger y) fun heq => heq ▸ hx
  have hwrite : D.Bounded k v c (net₁.setNode (D.info i).address
      { net₁.node (D.info i).address with
        fingerTable := (D.at' net₁.node i).fingerTable.set finger x }) :=
    h₁.setNode hi (h₁.info i hi) ⟨hinfo, hsucc, hlist, hpred, hset⟩ (h₁.successorList i hi)
      (List.length_set.le.trans (h₁.fingerTable i hi)) rfl
  exact returns_safeUpdate.mpr hwrite

/-! ### Recovery -/

/-- A table of the size of a finger table has at most so many fourth entries. -/
theorem length_sampledFingers {n : ChordNode} (h : n.fingerTable.length ≤ M) :
    (n.sampledFingers 4).length ≤ M / 4 := by
  have hindices : (n.fingerTable.zipIdx.filter fun p => p.2 % 4 = 0).length
      = ((List.range' 0 n.fingerTable.length).filter fun j => j % 4 = 0).length := by
    rw [← List.zipIdx_map_snd, List.filter_map, List.length_map]
    rfl
  have hsub : (List.range' 0 n.fingerTable.length).Sublist (List.range' 0 M) :=
    List.range'_sublist_right.mpr h
  rw [ChordNode.sampledFingers, List.length_map, hindices]
  exact (hsub.filter _).length_le.trans (by decide)

/-- A node recovers from a bounded number of sources. -/
theorem length_getReplicaNodesForRange {n : ChordNode} (start «end» : NodeId)
    (hlist : n.successorList.length ≤ successorListSize) (hfinger : n.fingerTable.length ≤ M) :
    (n.getReplicaNodesForRange start «end»).length ≤ recoverySources := by
  have hfingers := length_sampledFingers hfinger
  unfold ChordNode.getReplicaNodesForRange sortDedupById
  refine (List.length_filter_le _ _).trans ((List.destutter_sublist _ _).length_le.trans ?_)
  rw [List.length_insertionSort, List.length_append, recoverySources]
  exact Nat.add_le_add hlist hfingers

/-- One node asked adds its copies to those of the node that recovers. -/
theorem Sized.recoverFrom (h : D.Sized net) (hi : i ∈ D.ids) {m : ℕ}
    (hothers : ∀ j ∈ D.ids, j ≠ i → (D.at' net.node j).copies k v ≤ c)
    (hself : (D.at' net.node i).copies k v ≤ m) (start «end» : NodeId) {x : NodeInfo}
    (hx : D.Known x) :
    Returns (recoverFrom (env medium (depth + 1) (D.info i).address) start «end» x) net
      fun _ net' => D.Sized net' ∧
        (∀ j ∈ D.ids, j ≠ i → (D.at' net'.node j).copies k v ≤ c) ∧
        (D.at' net'.node i).copies k v ≤ m + c := by
  obtain ⟨j, hj, rfl⟩ := hx
  have hmore : (D.at' net.node i).copies k v ≤ m + c := hself.trans (Nat.le_add_right m c)
  simp only [TaceChat.recoverFrom, returns_bind, returns_safeLock, env_node, env_callNode,
    returns_ite, h.info_id_eq hi]
  refine ⟨fun _ => returns_pure.mpr ⟨h, hothers, hmore⟩, fun hji => (call_read rfl).mono ?_⟩
  rintro r net₁ ⟨hs, rfl | rfl⟩
  · refine returns_pure.mpr ⟨h.sameNodes hs, ?_, ?_⟩ <;> rw [hs.1]
    · exact hothers
    · exact hmore
  · -- The values of the called node are appended.
    have h₁ := h.sameNodes hs
    simp only [returns_safeUpdate, env_node, env_setNode, hs.1]
    generalize hreplicas :
      (net.node (D.info j).address).handleRequestReplicas start «end» = replicas
    have hadded : occurrences k v replicas ≤ c := by
      rw [← hreplicas]
      exact (ChordNode.occurrences_getDataRange_le _ _ _).trans (hothers j hj hji)
    obtain ⟨d, hd⟩ := ChordNode.recover_frame replicas (net.node (D.info i).address)
    obtain ⟨hinfo, hsucc, hlist, hpred, hfinger⟩ := h.reports i hi
    refine ⟨h₁.setNode hi ?_ ?_ ?_ ?_, fun l hl hli => ?_, ?_⟩
    · rw [hd]
      exact h.info i hi
    · rw [hd]
      exact ⟨hinfo, hsucc, hlist, hpred, hfinger⟩
    · rw [hd]
      exact h.successorList i hi
    · rw [hd]
      exact h.fingerTable i hi
    · rw [at'_setNode hi hl, if_neg hli, hs.1]
      exact hothers l hl hli
    · rw [at'_setNode hi hi, if_pos rfl, ChordNode.copies_recover]
      exact Nat.add_le_add hself hadded

/-- The loop over the nodes that are asked. -/
theorem Sized.forM_recoverFrom (hi : i ∈ D.ids) (start «end» : NodeId) (l : List NodeInfo) :
    ∀ {net : Network φ} {m : ℕ}, D.Sized net →
      (∀ j ∈ D.ids, j ≠ i → (D.at' net.node j).copies k v ≤ c) →
      (D.at' net.node i).copies k v ≤ m → (∀ x ∈ l, D.Known x) →
      Returns
        (forM l (TaceChat.recoverFrom (env medium (depth + 1) (D.info i).address) start «end»))
        net fun _ net' => D.Sized net' ∧
          (∀ j ∈ D.ids, j ≠ i → (D.at' net'.node j).copies k v ≤ c) ∧
          (D.at' net'.node i).copies k v ≤ m + l.length * c := by
  induction l with
  | nil =>
    intro net m h hothers hself _
    exact returns_pure.mpr ⟨h, hothers, by simpa using hself⟩
  | cons x l ih =>
    intro net m h hothers hself hl
    obtain ⟨hx, hl⟩ := List.forall_mem_cons.mp hl
    rw [List.forM_cons]
    refine (h.recoverFrom hi hothers hself start «end» hx).bind ?_
    rintro - net₁ ⟨h₁, hothers₁, hself₁⟩
    refine (ih h₁ hothers₁ hself₁ hl).mono ?_
    rintro - net₂ ⟨h₂, hothers₂, hself₂⟩
    refine ⟨h₂, hothers₂, hself₂.trans (Nat.le_of_eq ?_)⟩
    rw [List.length_cons, Nat.succ_mul]
    omega

/-- A recovery multiplies the bound, at most, by the number of nodes that it asks, plus one. -/
theorem Bounded.reconcileData (h : D.Bounded k v c net) (hi : i ∈ D.ids)
    (failedPredecessor : NodeInfo) :
    Returns (reconcileDataAfterPredecessorFailure (env medium (depth + 1) (D.info i).address)
      failedPredecessor) net fun _ net' => D.Bounded k v ((recoverySources + 1) * c) net' := by
  simp only [reconcileDataAfterPredecessorFailure, returns_bind, returns_safeLock, env_node]
  generalize (Option.map NodeInfo.id (net.node (D.info i).address).predecessor).getD
    failedPredecessor.id = start
  generalize (net.node (D.info i).address).info.id = «end»
  have hlen : ((net.node (D.info i).address).getReplicaNodesForRange start «end»).length
      ≤ recoverySources :=
    length_getReplicaNodesForRange start «end» (h.successorList i hi) (h.fingerTable i hi)
  have hknown : ∀ x ∈ (net.node (D.info i).address).getReplicaNodesForRange start «end»,
      D.Known x := by
    intro x hx
    rcases List.mem_append.mp (mem_of_mem_sortDedupById (List.mem_of_mem_filter hx)) with hx | hx
    · exact (h.reports i hi).successorList x hx
    · simp only [ChordNode.sampledFingers, List.mem_map, List.mem_filter] at hx
      obtain ⟨p, ⟨hp, -⟩, rfl⟩ := hx
      exact (h.reports i hi).fingerTable p.1 (List.fst_mem_of_mem_zipIdx hp)
  refine (Sized.forM_recoverFrom hi start «end» _ h.toSized (fun j hj _ => h.copies j hj)
    (h.copies i hi) hknown).mono ?_
  rintro - net' ⟨h', hothers, hself⟩
  refine ⟨h', fun j hj => ?_⟩
  rw [Nat.succ_mul]
  rcases eq_or_ne j i with rfl | hji
  · have := Nat.mul_le_mul_right c hlen
    omega
  · exact (hothers j hj hji).trans (Nat.le_add_left _ _)

/-- A check of the predecessor does the same when its ping fails, and nothing else. -/
theorem Bounded.checkPredecessor (h : D.Bounded k v c net) (hi : i ∈ D.ids) :
    Returns (checkPredecessor (env medium (depth + 1) (D.info i).address)) net
      fun _ net' => D.Bounded k v ((recoverySources + 1) * c) net' := by
  have hle : c ≤ (recoverySources + 1) * c := Nat.le_mul_of_pos_left c (Nat.succ_pos _)
  simp only [TaceChat.checkPredecessor, returns_bind, returns_safeLock, env_node, env_callNode]
  cases hpred : (net.node (D.info i).address).predecessor with
  | none => exact returns_pure.mpr (h.mono hle)
  | some predecessor =>
    refine returns_bind.mpr ((call_read rfl).mono ?_)
    rintro r net₁ ⟨hs, rfl | rfl⟩
    · have h₁ := h.sameNodes hs
      obtain ⟨hinfo, hsucc, hlist, -, hfinger⟩ := h₁.reports i hi
      have h₂ : D.Bounded k v c (net₁.setNode (D.info i).address
          { net₁.node (D.info i).address with predecessor := none }) :=
        h₁.setNode hi (h₁.info i hi) ⟨hinfo, hsucc, hlist, fun _ hp => (by cases hp), hfinger⟩
          (h₁.successorList i hi) (h₁.fingerTable i hi) rfl
      exact returns_bind.mpr (returns_safeUpdate.mpr (h₂.reconcileData hi predecessor))
    · exact returns_pure.mpr ((h.sameNodes hs).mono hle)

end Directory

end TaceChat
