import TaceChat.Proofs.IdNetwork
import TaceChat.Proofs.Rounds

/-!
# A correct ring is a fixed point of maintenance

`Directory.ExactPointers` says that the members of a set of ids point at their neighbours in that
set. Then each task of the background loop leaves every successor, predecessor and data map alone
(`upkeep_exact`), and a stabilization writes the list of the next nodes (`Directory.nextList`).
`upkeep_fixedPoint` is the same for every sequence of tasks.
-/

set_option autoImplicit false

namespace TaceChat

open IdCircle Network

namespace Directory

variable (D : Directory)

/-- The predecessor of a node in a ring: the only node of a ring has none. -/
noncomputable def predecessorIn (R : Finset NodeId) (i : NodeId) : Option NodeInfo :=
  if R.card = 1 then none else some (D.info (prev R i))

/-- The members of `R` point at their neighbours in `R`. -/
structure ExactPointers (R : Finset NodeId) (nodes : String → ChordNode) : Prop where
  successor : ∀ i ∈ R, (D.at' nodes i).successor = D.info (next R i)
  predecessor : ∀ i ∈ R, (D.at' nodes i).predecessor = D.predecessorIn R i

/-- The next nodes after `i`: the first three, or all others with the last one repeated. -/
noncomputable def nextList (R : Finset NodeId) (i : NodeId) : List NodeInfo :=
  (List.range successorListSize).map fun k => D.info ((next R)^[min (k + 1) (R.card - 1)] i)

variable {D} {R : Finset NodeId} {net : Network Unit} {depth : ℕ}

/-- The walk along the successors of a ring, from the `j`-th node after `i`. -/
theorem walkSuccessors_exact (hrun : D.Runs net) (hsub : R ⊆ D.ids)
    (hexact : D.ExactPointers R net.node) {i : NodeId} (hi : i ∈ R) (k : ℕ) :
    ∀ {j : ℕ}, 0 < j → j < R.card →
      Returns (walkSuccessors (env reliable (depth + 1) (D.info i).address) k
          (D.info ((next R)^[j] i))) net
        fun r net' => net' = net ∧
          r = (List.range (min k (R.card - 1 - j))).map fun t =>
            D.info ((next R)^[j + 1 + t] i) := by
  have hself : (net.node (D.info i).address).info = D.info i := hrun.info i (hsub hi)
  induction k with
  | zero => exact fun _ _ => returns_pure.mpr ⟨rfl, by simp⟩
  | succ k ih =>
    intro j hj hjc
    have hmem : (next R)^[j] i ∈ R := iterate_next_mem hi j
    have hcurrent : (net.node (D.info ((next R)^[j] i)).address).successor
        = D.info ((next R)^[j + 1] i) := by
      rw [Function.iterate_succ_apply']
      exact hexact.successor _ hmem
    simp only [walkSuccessors, returns_bind, returns_safeLock, returns_ite, env_node, env_callNode,
      hself, D.info_id, iterate_next_ne hi hj hjc, false_implies, not_false_iff, true_implies,
      true_and]
    rw [call_read_answered rfl rfl (hrun.listening _ (hsub hmem)), hcurrent]
    refine returns_ite.mpr ⟨fun hback => ?_, fun hgo => ?_⟩
    · -- The walk has come round: the node was the last one before `i`.
      have hlast : ¬ j + 1 < R.card := fun hlt =>
        iterate_next_ne hi (Nat.succ_pos j) hlt ((D.info_id _).symm.trans hback)
      refine returns_pure.mpr ⟨rfl, ?_⟩
      rw [show min (k + 1) (R.card - 1 - j) = 0 by omega]
      rfl
    · have hlt : j + 1 < R.card := by
        refine Nat.lt_of_le_of_ne hjc fun heq => hgo ?_
        rw [D.info_id, heq, iterate_next_card hi]
      refine (ih (Nat.succ_pos j) hlt).bind ?_
      rintro rest net' ⟨rfl, rfl⟩
      refine returns_pure.mpr ⟨rfl, ?_⟩
      rw [show min (k + 1) (R.card - 1 - j) = min k (R.card - 1 - (j + 1)) + 1 by omega,
        List.range_succ_eq_map, List.map_cons, List.map_map]
      refine congrArg _ (List.map_congr_left fun t _ => ?_)
      show D.info _ = D.info _
      rw [show j + 1 + 1 + t = j + 1 + (t + 1) by omega]

/-- The list of a walk, filled up, is the list of the next nodes. -/
theorem fillSuccessorList_walk (i : NodeId) (hcard : 1 < R.card) :
    fillSuccessorList (D.info (next R i))
        ((List.range (min (successorListSize - 1) (R.card - 1 - 1))).map fun t =>
          D.info ((next R)^[1 + 1 + t] i))
      = D.nextList R i := by
  unfold nextList successorListSize
  obtain ⟨n, hn⟩ : ∃ n, R.card = n + 2 := ⟨R.card - 2, by omega⟩
  rw [hn]
  rcases n with _ | _ | n
  · rfl
  · rfl
  · have h1 : min (3 - 1) (n + 1 + 1 + 2 - 1 - 1) = 2 := by omega
    have h2 : min (0 + 1) (n + 1 + 1 + 2 - 1) = 1 := by omega
    simp only [h1, h2, List.range_succ_eq_map, List.map_cons, List.range_zero, List.map_nil]
    simp [fillSuccessorList, successorListSize]

/-- A stabilization in a ring with exact pointers writes the successor list of the node that
stabilizes, and nothing else. -/
theorem stabilize_exact (hrun : D.Runs net) (hsub : R ⊆ D.ids)
    (hexact : D.ExactPointers R net.node) {i : NodeId} (hi : i ∈ R) :
    Returns (stabilize (env reliable (depth + 1) (D.info i).address)) net fun _ net' =>
      ∃ list, net' = net.withList (D.info i).address list ∧
        (list = (D.at' net.node i).successorList ∨ list = D.nextList R i) ∧
        (1 < R.card → list = D.nextList R i) := by
  have hself : (net.node (D.info i).address).info = D.info i := hrun.info i (hsub hi)
  have hsucc : (net.node (D.info i).address).successor = D.info (next R i) :=
    hexact.successor i hi
  have hnext : next R i ∈ R := next_mem ⟨i, hi⟩ i
  by_cases hcard : 1 < R.card
  · have hne : next R i ≠ i := next_ne_self hcard
    have hpred : (net.node (D.info (next R i)).address).predecessor = some (D.info i) := by
      have h := hexact.predecessor _ hnext
      rwa [predecessorIn, if_neg (by omega), prev_next hi] at h
    -- The successor reports this node itself, which is not between it and the successor.
    have hanswered : net.answered (D.info i).address = net := by
      have hnot := isBetween_start (D.info i).id (net.node (D.info i).address).successor.id
      rw [answered, hsucc, hpred, ChordNode.afterAnswer_keep (by rwa [hself]), setNode_same]
    have hsuccId : (net.node (D.info i).address).info.id
        ≠ (net.node (D.info i).address).successor.id := by
      rw [hself, hsucc, D.info_id, D.info_id]
      exact Ne.symm hne
    have hlisten := hrun.listening _ (hsub hnext)
    rw [returns_stabilize_answered hsuccId (by rw [hsucc]; exact hlisten), hanswered]
    -- The successor refuses a notification from the predecessor it has.
    have hrefuse : (net.node (D.info (next R i)).address).notifyUpdate (D.info i) = none :=
      ChordNode.notifyUpdate_refuse hpred (isBetween_start _ _)
    simp only [notifyAndRefresh, returns_bind, returns_discard, hsucc, hself]
    rw [returns_call_reliable hlisten]
    simp only [handleConnection.eq_def, returns_bind]
    rw [returns_notify_refused (Or.inr hrefuse), returns_pure]
    simp only [updateSuccessorList, returns_bind, returns_safeLock, env_node, hsucc]
    refine (walkSuccessors_exact hrun hsub hexact hi _ Nat.one_pos hcard).mono ?_
    rintro rest net' ⟨rfl, rfl⟩
    simp only [returns_safeUpdate, env_node, env_setNode]
    refine ⟨_, rfl, ?_⟩
    rw [fillSuccessorList_walk i hcard]
    exact ⟨Or.inr rfl, fun _ => rfl⟩
  · have hone : R.card = 1 := by
      have := Finset.card_pos.mpr ⟨i, hi⟩
      omega
    have hpred : (net.node (D.info i).address).predecessor = none := by
      have h := hexact.predecessor i hi
      rwa [predecessorIn, if_pos hone] at h
    obtain ⟨c, rfl⟩ := Finset.card_eq_one.mp hone
    obtain rfl := Finset.mem_singleton.mp hi
    rw [next_singleton] at hsucc
    rw [returns_stabilize_alone (by rw [hself, hsucc])]
    refine ⟨(D.at' net.node i).successorList, ?_, Or.inl rfl, fun h => absurd h hcard⟩
    rw [← hpred]
    rfl

/-- `check_predecessor` in a ring: the predecessor answers. -/
theorem checkPredecessor_exact (hrun : D.Runs net) (hsub : R ⊆ D.ids)
    (hexact : D.ExactPointers R net.node) {i : NodeId} (hi : i ∈ R)
    {Q : Unit → Network Unit → Prop} :
    Returns (checkPredecessor (env reliable (depth + 1) (D.info i).address)) net Q ↔ Q () net := by
  have hpred : (net.node (D.info i).address).predecessor = D.predecessorIn R i :=
    hexact.predecessor i hi
  simp only [checkPredecessor, returns_bind, returns_safeLock, env_node, env_callNode, hpred,
    predecessorIn]
  by_cases hone : R.card = 1
  · simp only [hone, if_true, returns_pure]
  · have hlisten := hrun.listening _ (hsub (prev_mem ⟨i, hi⟩ i))
    simp only [hone, if_false, returns_bind]
    rw [call_read_answered rfl rfl hlisten, returns_pure]

end Directory

/-- The networks agree in pointers and in data. -/
structure Network.KeepsPointers (net net' : Network Unit) : Prop extends
    Network.SamePointers net net' where
  data : ∀ a, (net'.node a).data = (net.node a).data

namespace Network

variable {D : Directory} {R : Finset NodeId} {net net' net'' : Network Unit}

/-- The same pointers are at the same nodes. -/
theorem SamePointers.runs (h : SamePointers net net') (hrun : D.Runs net) : D.Runs net' where
  info i hi := (h.info _).trans (hrun.info i hi)
  listening i hi := (congrFun h.listening _).trans (hrun.listening i hi)

/-- The same pointers are exact. -/
theorem SamePointers.exactPointers (h : SamePointers net net')
    (hexact : D.ExactPointers R net.node) : D.ExactPointers R net'.node where
  successor i hi := (h.successor _).trans (hexact.successor i hi)
  predecessor i hi := (h.predecessor _).trans (hexact.predecessor i hi)

/-- A network keeps its own pointers. -/
theorem KeepsPointers.refl (net : Network Unit) : KeepsPointers net net :=
  ⟨.refl net, fun _ => rfl⟩

/-- One change after another. -/
theorem KeepsPointers.trans (h : KeepsPointers net net') (h' : KeepsPointers net' net'') :
    KeepsPointers net net'' :=
  ⟨h.toSamePointers.trans h'.toSamePointers, fun a => (h'.data a).trans (h.data a)⟩

/-- A write to one node that keeps its pointers and its data. -/
theorem KeepsPointers.setNode {a : String} {n : ChordNode}
    (h : SamePointers net (net.setNode a n)) (hdata : n.data = (net.node a).data) :
    KeepsPointers net (net.setNode a n) := by
  refine ⟨h, fun b => ?_⟩
  rcases eq_or_ne b a with rfl | hb
  · rw [setNode_node_self, hdata]
  · rw [setNode_node_of_ne hb]

end Network

namespace Directory

variable {D : Directory} {net : Network Unit} {depth : ℕ}

/-- The successor list of a node. -/
def listAt (D : Directory) (net : Network Unit) (i : NodeId) : List NodeInfo :=
  (D.at' net.node i).successorList

/-- The lists of the other nodes stay. -/
theorem listAt_setNode_of_ne {i j : NodeId} (hi : i ∈ D.ids) (hj : j ∈ D.ids) (hne : j ≠ i)
    (n : ChordNode) : D.listAt (net.setNode (D.info i).address n) j = D.listAt net j := by
  have haddress : (D.info j).address ≠ (D.info i).address := fun h =>
    hne (D.address_inj j hj i hi h)
  rw [listAt, listAt, at', at', setNode_node_of_ne haddress]

/-- One task of the background loop in a correct ring. -/
theorem upkeep_exact (hrun : D.Runs net) (hexact : D.ExactPointers D.ids net.node) {i : NodeId}
    (hi : i ∈ D.ids) (task : Upkeep) :
    Returns (task.run (env reliable (depth + 1) (D.info i).address)) net fun _ net' =>
      KeepsPointers net net' ∧
      (∀ j ∈ D.ids, D.listAt net' j = D.listAt net j ∨ D.listAt net' j = D.nextList D.ids j) ∧
      (task = .stabilize → 1 < D.ids.card → D.listAt net' i = D.nextList D.ids i) := by
  cases task with
  | stabilize =>
    refine (stabilize_exact hrun (Finset.Subset.refl _) hexact hi).mono ?_
    rintro - net' ⟨list, rfl, hlist, hnext⟩
    have hself : D.listAt (net.withList (D.info i).address list) i = list := by
      rw [listAt, at', withList, setNode_node_self]
    refine ⟨.setNode (.setNode rfl rfl rfl) rfl, fun j hj => ?_,
      fun _ hcard => hself.trans (hnext hcard)⟩
    rcases eq_or_ne j i with rfl | hji
    · rw [hself]
      exact hlist
    · exact Or.inl (listAt_setNode_of_ne hi hj hji _)
  | fixFingers k =>
    simp only [Upkeep.run, fixFingers, returns_bind, returns_safeLock, env_node]
    refine (findSuccessor_finds (.any net) (.any _) _).mono ?_
    rintro finger net' ⟨hsame, -⟩
    rw [hsame.eq, returns_safeUpdate]
    refine ⟨.setNode (.setNode rfl rfl rfl) rfl, fun j hj => Or.inl ?_, fun h => by cases h⟩
    rcases eq_or_ne j i with rfl | hji
    · simp [listAt, at']
    · exact listAt_setNode_of_ne hi hj hji _
  | checkPredecessor =>
    refine (checkPredecessor_exact hrun (Finset.Subset.refl _) hexact hi).mpr ?_
    exact ⟨.refl net, fun _ _ => Or.inl rfl, fun h => by cases h⟩

/-- A sequence of tasks in a correct ring. -/
theorem forM_upkeep_exact (tasks : List (Upkeep × NodeId)) :
    ∀ {net : Network Unit}, D.Runs net → D.ExactPointers D.ids net.node →
      (∀ t ∈ tasks, t.2 ∈ D.ids) →
      Returns (forM tasks fun t => t.1.run (env reliable (depth + 1) (D.info t.2).address)) net
        fun _ net' => KeepsPointers net net' ∧
          (∀ j ∈ D.ids, D.listAt net' j = D.listAt net j ∨
            D.listAt net' j = D.nextList D.ids j) ∧
          ∀ j, (.stabilize, j) ∈ tasks → 1 < D.ids.card →
            D.listAt net' j = D.nextList D.ids j := by
  induction tasks with
  | nil =>
    intro net _ _ _
    exact returns_pure.mpr ⟨.refl net, fun _ _ => Or.inl rfl, fun _ h => by cases h⟩
  | cons t tasks ih =>
    intro net hrun hexact hmem
    obtain ⟨ht, hmem⟩ := List.forall_mem_cons.mp hmem
    rw [List.forM_cons]
    refine (upkeep_exact hrun hexact ht t.1).bind ?_
    rintro - net₁ ⟨hkeep₁, hlist₁, hown₁⟩
    refine (ih (hkeep₁.toSamePointers.runs hrun)
      (hkeep₁.toSamePointers.exactPointers hexact) hmem).mono ?_
    rintro - net₂ ⟨hkeep₂, hlist₂, hdone₂⟩
    refine ⟨hkeep₁.trans hkeep₂, fun j hj => ?_, fun j hj hcard => ?_⟩
    · rcases hlist₂ j hj with hsame | hnext
      · rw [hsame]
        exact hlist₁ j hj
      · exact Or.inr hnext
    · rcases List.mem_cons.mp hj with hhead | htail
      · -- The list written by the head task is kept, or written again by a later one.
        obtain ⟨hstab, rfl⟩ : Upkeep.stabilize = t.1 ∧ j = t.2 := Prod.mk.inj hhead
        rcases hlist₂ _ ht with hsame | hnext
        · rw [hsame]
          exact hown₁ hstab.symm hcard
        · exact hnext
      · exact hdone₂ j htail hcard

end Directory

/-- A correct ring is a fixed point of maintenance. After any sequence of tasks of the background
loop at its nodes, every successor, predecessor and data map is what it was, and in a ring of more
than one node every node that has stabilized has the list of its next nodes. -/
theorem upkeep_fixedPoint (D : Directory) (net : Network Unit) (depth : ℕ)
    (tasks : List (Upkeep × NodeId)) (hrun : D.Runs net)
    (hexact : D.ExactPointers D.ids net.node) (hmem : ∀ t ∈ tasks, t.2 ∈ D.ids) :
    Returns (forM tasks fun t => t.1.run (env reliable (depth + 1) (D.info t.2).address)) net
      fun _ net' =>
        (∀ a, (net'.node a).successor = (net.node a).successor ∧
          (net'.node a).predecessor = (net.node a).predecessor ∧
          (net'.node a).data = (net.node a).data) ∧
        ∀ i, (.stabilize, i) ∈ tasks → 2 ≤ D.ids.card →
          (D.at' net'.node i).successorList = D.nextList D.ids i := by
  refine (Directory.forM_upkeep_exact tasks hrun hexact hmem).mono ?_
  rintro - net' ⟨hkeep, -, hdone⟩
  exact ⟨fun a => ⟨hkeep.successor a, hkeep.predecessor a, hkeep.data a⟩, hdone⟩

/-- Each of the two nodes points at the other one. -/
theorem pairRing_exactPointers :
    (Directory.ofIds pairIds).ExactPointers pairIds pairRing.node where
  successor i hi := by
    rw [next_pairIds hi]
    exact congrArg ChordNode.successor (Directory.at'_ofIds pairIds _ i)
  predecessor i hi := by
    rw [Directory.predecessorIn, if_neg (by decide), prev_pairIds hi]
    exact congrArg ChordNode.predecessor (Directory.at'_ofIds pairIds _ i)

/-- `upkeep_fixedPoint` in a ring of two: the node 10 stabilizes. -/
theorem upkeep_fixedPoint_pairRing :
    Returns (forM [(Upkeep.stabilize, biguintToNodeId 10)] fun t =>
      t.1.run (env reliable 1 (infoOf t.2).address)) pairRing
      fun _ net' => ((Directory.ofIds pairIds).at' net'.node (biguintToNodeId 10)).successorList
        = (Directory.ofIds pairIds).nextList pairIds (biguintToNodeId 10) := by
  have hrun := upkeep_fixedPoint (Directory.ofIds pairIds) pairRing 0
    [(.stabilize, biguintToNodeId 10)] pairRing_serves.toRuns pairRing_exactPointers
    (fun t ht => List.mem_singleton.mp ht ▸ by decide)
  exact hrun.mono fun _ net' h => h.2 _ List.mem_cons_self (by decide)

end TaceChat
