import TaceChat.Proofs.JoinHeals

/-!
# What a new node is handed

A new node `d` joins between its predecessor `P` and its successor `S`. `join` pulls and `notify`
pushes the data of the range (d, S], and the keys that `d` owns from then on are those of (P, d].
The ranges are disjoint, so neither transfer touches a key that changes its owner
(`join_handsOff_iff`).
-/

set_option autoImplicit false

namespace TaceChat

open IdCircle Network

namespace Directory

variable {D : Directory} {R : Finset NodeId} {d : NodeId} {net : Network Unit} {depth : ℕ}

/-- A new node knows no other node and holds no data. -/
structure New (D : Directory) (d : NodeId) (net : Network Unit) : Prop where
  predecessor : (D.at' net.node d).predecessor = none
  data : (D.at' net.node d).data = ∅

/-- The keys that a new node owns once it has joined. -/
def Owns (R : Finset NodeId) (d k : NodeId) : Prop := isBetween k (prev R d) d = true

/-- The keys that are transferred to a new node. -/
def HandedOff (R : Finset NodeId) (d k : NodeId) : Prop := Transferred d (next R d) k

/-- No key that the new node owns is transferred to it. -/
theorem not_handedOff_of_owns (hd : d ∉ R) (hR : R.Nonempty) {k : NodeId} (h : Owns R d k) :
    ¬ HandedOff R d k := by
  have hdn : d ≠ next R d := fun heq => hd (heq ▸ next_mem hR d)
  have hnot := not_inArc_next hd hR ((isBetween_iff _ _ _).mp h)
  rintro (hin | rfl)
  · exact hnot ((isBetween_iff _ _ _).mp hin)
  · exact hnot (inArc_end hdn)

/-- The lookup of a joining node changes no node. -/
theorem findJoinSuccessor_sameNodes (a bootstrap : String) (net : Network Unit) :
    Returns (findJoinSuccessor (env reliable (depth + 2) a) bootstrap) net fun _ net' =>
      net' = net := by
  let b : NodeInfo := ⟨(net.node a).info.id, bootstrap, bootstrap⟩
  have hb : Returns (findJoinSuccessor (env reliable (depth + 2) a) b.address) net
      (Finds (fun _ => True) net) := findJoinSuccessor_finds (.any net) trivial
  exact hb.mono fun _ _ h => h.1.eq

/-- The join of a node that finds its successor. -/
theorem join_outside {i s : NodeId} (hrun : D.Runs net) (hi : i ∈ D.ids) (hs : s ∈ D.ids)
    {bootstrap : String}
    (hfind : Returns (findJoinSuccessor (env reliable (depth + 3) (D.info i).address) bootstrap)
      net fun r _ => r = some (D.info s)) :
    Returns (join (env reliable (depth + 3) (D.info i).address) (some bootstrap)) net
      fun _ net' => SameOutside (Transferred i s) (net.setNode (D.info i).address
        { D.at' net.node i with successor := D.info s }) net' := by
  have hid : (net.node (D.info i).address).info.id = i :=
    (congrArg NodeInfo.id (hrun.info i hi)).trans (D.info_id i)
  simp only [join, returns_bind]
  refine (hfind.and (findJoinSuccessor_sameNodes _ _ net)).mono ?_
  rintro _ net₀ ⟨rfl, hnet⟩
  subst hnet
  simp only [returns_bind, returns_safeUpdate, pullData, returns_safeLock, env_node, env_setNode,
    env_callNode, setNode_node_self]
  refine (call_read_answered rfl rfl ?_).mpr ?_
  · exact hrun.listening s hs
  · simp only [hid, D.info_id]
    refine (forEachValue_changesData (fun e he => transferred_of_mem he) ?_).mono
      fun _ _ h => h.sameOutside
    exact fun key value net₁ hkey => store_changesData hkey value

/-- The state of a new node after it has joined. -/
theorem searching_of_joined (hids : D.ids = insert d R) (hd : d ∉ R) (hR : R.Nonempty)
    (hrun : D.Runs net) (hexact : D.ExactPointers R net.node) (hnew : D.New d net)
    {P : NodeId → Prop} {net₁ : Network Unit}
    (h : SameOutside P (net.setNode (D.info d).address
      { D.at' net.node d with successor := D.info (next R d) }) net₁) :
    D.Runs net₁ ∧ D.Searching R d R.card net₁ ∧
      (D.at' net₁.node d).successor = D.info (next R d) := by
  have hdm : d ∈ D.ids := hids ▸ Finset.mem_insert_self d R
  -- Setting the new node leaves the nodes of the ring alone.
  have hat : ∀ n : ChordNode, ∀ i ∈ R,
      D.at' (net.setNode (D.info d).address n).node i = D.at' net.node i := by
    intro n i hi
    have hid : i ≠ d := fun heq => hd (heq ▸ hi)
    rw [at'_setNode hdm (hids ▸ Finset.mem_insert_of_mem hi), if_neg hid]
  have hself : ∀ n : ChordNode, D.at' (net.setNode (D.info d).address n).node d = n := by
    intro n
    rw [at'_setNode hdm hdm, if_pos rfl]
  have hrun₀ := hrun.setNode (n := { D.at' net.node d with successor := D.info (next R d) })
    hdm (hrun.info d hdm)
  have hexact₀ : D.ExactPointers R (net.setNode (D.info d).address
      { D.at' net.node d with successor := D.info (next R d) }).node :=
    ⟨fun i hi => by rw [hat _ i hi]; exact hexact.successor i hi,
      fun i hi => by rw [hat _ i hi]; exact hexact.predecessor i hi⟩
  have hsucc : (D.at' net₁.node d).successor = D.info (next R d) := by
    refine (h.successor _).trans ?_
    show (D.at' _ d).successor = _
    rw [hself]
  refine ⟨h.toSamePointers.runs hrun₀, ⟨h.toSamePointers.exactPointers hexact₀, ?_, ?_⟩, hsucc⟩
  · refine (h.predecessor _).trans ?_
    show (D.at' _ d).predecessor = _
    rw [hself]
    exact hnew.predecessor
  · exact ⟨next R d, next_mem hR d, hsucc, Finset.card_filter_le _ _⟩

/-- The join of a new node and its first stabilization. The node after it accepts it, and its data
changes under the transferred keys only. -/
theorem join_stabilize_outside (hids : D.ids = insert d R) (hd : d ∉ R) (hR : R.Nonempty)
    (hrun : D.Runs net) (hexact : D.ExactPointers R net.node) (hnew : D.New d net)
    {bootstrap : String}
    (hfind : Returns (findJoinSuccessor (env reliable (depth + 3) (D.info d).address) bootstrap)
      net fun r _ => r = some (D.info (next R d))) :
    Returns (do
        join (env reliable (depth + 3) (D.info d).address) (some bootstrap)
        stabilize (env reliable (depth + 3) (D.info d).address)) net
      fun _ net' => (D.at' net'.node (next R d)).predecessor = some (D.info d) ∧
        ∀ k, ¬ HandedOff R d k →
          (D.at' net'.node d).data.lookup k = (D.at' net.node d).data.lookup k := by
  have hdm : d ∈ D.ids := hids ▸ Finset.mem_insert_self d R
  have hn : next R d ∈ R := next_mem hR d
  have hnm : next R d ∈ D.ids := hids ▸ Finset.mem_insert_of_mem hn
  have hdn : d ≠ next R d := fun heq => hd (heq ▸ hn)
  refine (join_outside hrun hdm hnm hfind).bind ?_
  rintro - net₁ h₁
  obtain ⟨hrun₁, hsearch, hsucc₁⟩ := searching_of_joined hids hd hR hrun hexact hnew h₁
  have hself₁ : (net₁.node (D.info d).address).info = D.info d := hrun₁.info d hdm
  have hsucc₁' : (net₁.node (D.info d).address).successor = D.info (next R d) := hsucc₁
  have hother₁ : (net₁.node (D.info (next R d)).address).info = D.info (next R d) :=
    hrun₁.info _ hnm
  -- The ring does not know the new node yet, so its successor answers with nothing closer.
  have hkeep := hsearch.answered_next hids hd hrun₁ hR hsucc₁
  have hne : (net₁.node (D.info d).address).info.id
      ≠ (net₁.node (D.info d).address).successor.id := by
    rw [hself₁, hsucc₁', D.info_id, D.info_id]
    exact hdn
  have hl : net₁.listening (net₁.node (D.info d).address).successor.address = true := by
    rw [hsucc₁']
    exact hrun₁.listening _ hnm
  refine (stabilize_outside hne hl (by rw [hkeep]; exact hl)).mono ?_
  rintro - net₂ h₂
  rw [hkeep] at h₂
  have haccepted := accepted_of_notified hids hd hrun₁ hsearch.exact hsearch.predecessor hR hsucc₁
  refine ⟨?_, fun k hk => ?_⟩
  · refine (h₂.predecessor _).trans ((haccepted.predecessor _ hn).trans ?_)
    rw [if_pos rfl]
  · -- Neither call has the key in its range.
    have hmoved : ¬ net₁.Moved (D.info d).address k := by
      rw [Moved, hself₁, hsucc₁', hother₁, D.info_id, D.info_id]
      exact hk
    refine (h₂.data _ k hmoved).trans ?_
    rw [notified_node_self]
    refine (h₁.data _ k hk).trans ?_
    rw [setNode_node_self]

end Directory

/-- What a join hands off. The node `d` joins a ring with exact pointers and is accepted by the
node after it. It holds all that this node held under the keys that it owns from then on, exactly
when there was nothing under these keys. -/
theorem join_handsOff_iff (D : Directory) (R : Finset NodeId) (d : NodeId) (net : Network Unit)
    (depth : ℕ) (bootstrap : String) (hids : D.ids = insert d R) (hd : d ∉ R)
    (hR : R.Nonempty) (hrun : D.Runs net) (hexact : D.ExactPointers R net.node)
    (hnew : D.New d net)
    (hfind : Returns (findJoinSuccessor (env reliable (depth + 3) (D.info d).address) bootstrap)
      net fun r _ => r = some (D.info (next R d))) :
    Returns (do
        join (env reliable (depth + 3) (D.info d).address) (some bootstrap)
        stabilize (env reliable (depth + 3) (D.info d).address)) net
      fun _ net' => (D.at' net'.node (next R d)).predecessor = some (D.info d) ∧
        ((∀ k, Directory.Owns R d k → ∀ v ∈ (D.at' net.node (next R d)).valuesAt k,
            v ∈ (D.at' net'.node d).valuesAt k) ↔
          ∀ k, Directory.Owns R d k → (D.at' net.node (next R d)).valuesAt k = []) := by
  refine (Directory.join_stabilize_outside hids hd hR hrun hexact hnew hfind).mono ?_
  rintro - net' ⟨haccepted, hdata⟩
  refine ⟨haccepted, forall_congr' fun k => imp_congr_right fun howns => ?_⟩
  -- The new node holds nothing under a key that it owns.
  have hempty : (D.at' net'.node d).valuesAt k = [] := by
    rw [ChordNode.valuesAt, hdata k (Directory.not_handedOff_of_owns hd hR howns), hnew.data]
    rfl
  rw [hempty, List.eq_nil_iff_forall_not_mem]
  exact forall_congr' fun v => imp_congr_right fun _ => iff_of_false List.not_mem_nil id

/-! ### A join to a node that holds one key -/

/-- The node 10 is alone in its ring and holds a value under `key`. The other nodes are new. -/
def keeper (key : NodeId) : Network Unit := Network.ofIds fun i =>
  { linkedNode id (fun _ => none) i with
    data := if i = biguintToNodeId 10 then (∅ : DataMap).insert key [[1]] else ∅ }

/-- The states of the nodes: the node 10 has the key, and each node is alone. -/
theorem keeper_at (ids : Finset NodeId) (key i : NodeId) :
    (Directory.ofIds ids).at' (keeper key).node i = { linkedNode id (fun _ => none) i with
      data := if i = biguintToNodeId 10 then (∅ : DataMap).insert key [[1]] else ∅ } :=
  Directory.at'_ofIds ids _ i

/-- The nodes listen under their infos. -/
theorem keeper_runs (ids : Finset NodeId) (key : NodeId) :
    (Directory.ofIds ids).Runs (keeper key) where
  info i _ := by rw [keeper_at]; rfl
  listening _ _ := rfl

/-- The node 10 is a ring of its own. -/
theorem keeper_exactPointers (key : NodeId) :
    (Directory.ofIds pairIds).ExactPointers {biguintToNodeId 10} (keeper key).node where
  successor i hi := by
    obtain rfl := Finset.mem_singleton.mp hi
    rw [next_singleton, keeper_at]
    rfl
  predecessor i _ := by
    rw [Directory.predecessorIn, if_pos (Finset.card_singleton _), keeper_at]
    rfl

/-- The node 20 has not begun to join. -/
theorem keeper_new (key : NodeId) :
    (Directory.ofIds pairIds).New (biguintToNodeId 20) (keeper key) where
  predecessor := by rw [keeper_at]; rfl
  data := by
    rw [keeper_at]
    show (if biguintToNodeId 20 = biguintToNodeId 10
      then (∅ : DataMap).insert key [[1]] else ∅) = ∅
    exact if_neg (by decide)

/-- The only node of a ring finds itself. -/
theorem keeper_findSuccessor (key id : NodeId) :
    Returns (findSuccessor (env reliable 2 (infoOf (biguintToNodeId 10)).address) id) (keeper key)
      fun r _ => r = infoOf (biguintToNodeId 10) := by
  have hserves : (Directory.ofIds {biguintToNodeId 10}).Serves (keeper key) := by
    refine ⟨keeper_runs _ key, fun i hi => ?_⟩
    obtain rfl := Finset.mem_singleton.mp hi
    have hknown : (Directory.ofIds {biguintToNodeId 10}).Known (infoOf (biguintToNodeId 10)) :=
      ⟨_, hi, rfl⟩
    rw [keeper_at]
    refine ⟨hknown, hknown, fun x hx => ?_, fun x hx => ?_, fun x hx => ?_⟩
    · exact List.eq_of_mem_replicate hx ▸ hknown
    · cases hx
    · exact List.eq_of_mem_replicate hx ▸ hknown
  have hself : biguintToNodeId 10 ∈ (Directory.ofIds {biguintToNodeId 10}).ids :=
    Finset.mem_singleton_self _
  refine (Directory.findSuccessor_route (c := 0) reliable_budget hserves.routes hself
    (Nat.le_refl maxRetries) (Or.inl rfl) trivial).mono ?_
  rintro _ net' ⟨rfl, -, -⟩
  exact congrArg infoOf
    (Finset.mem_singleton.mp
      (hserves.routes.succ_mem (hserves.routes.route_mem id maxRetries hself)))

/-- The node 10 answers the lookup of the node 20 with itself. -/
theorem keeper_find (key : NodeId) :
    Returns (findJoinSuccessor (env reliable 3 (infoOf (biguintToNodeId 20)).address)
      (infoOf (biguintToNodeId 10)).address) (keeper key)
      fun r _ => r = some (infoOf (next {biguintToNodeId 10} (biguintToNodeId 20))) := by
  have hself : ((keeper key).node (infoOf (biguintToNodeId 20)).address).info
      = infoOf (biguintToNodeId 20) := (keeper_runs pairIds key).info _ (by decide)
  simp only [findJoinSuccessor, returns_bind, returns_safeLock, env_node, env_callNode]
  rw [returns_call_reliable rfl]
  simp only [handleConnection.eq_def, returns_bind]
  refine (keeper_findSuccessor key _).mono ?_
  rintro _ net' rfl
  rw [returns_pure, next_singleton]
  refine returns_ite.mpr ⟨fun h => absurd h ?_, fun _ => returns_pure.mpr rfl⟩
  show ¬ biguintToNodeId 10 = ((keeper key).node _).info.id
  rw [hself]
  decide

/-- The node 20 joins the node 10. -/
theorem pairIds_eq_insert : pairIds = insert (biguintToNodeId 20) {biguintToNodeId 10} := by
  decide

/-- `join_handsOff_iff` for a node that holds the key 25, which does not change its owner. -/
theorem join_handsOff_iff_keeper :
    Returns (do
        join (env reliable 3 (infoOf (biguintToNodeId 20)).address)
          (some (infoOf (biguintToNodeId 10)).address)
        stabilize (env reliable 3 (infoOf (biguintToNodeId 20)).address))
      (keeper (biguintToNodeId 25))
      fun _ net' => ((Directory.ofIds pairIds).at' net'.node (biguintToNodeId 10)).predecessor
        = some (infoOf (biguintToNodeId 20)) := by
  have hjoin := join_handsOff_iff (Directory.ofIds pairIds) {biguintToNodeId 10}
    (biguintToNodeId 20) (keeper (biguintToNodeId 25)) 0 (infoOf (biguintToNodeId 10)).address
    pairIds_eq_insert (by decide) (Finset.singleton_nonempty _) (keeper_runs _ _)
    (keeper_exactPointers _) (keeper_new _) (keeper_find _)
  refine hjoin.mono fun _ net' h => ?_
  have haccepted := h.1
  rwa [next_singleton] at haccepted

/-- A join does not hand off the keys of the new node: the node 10 holds the key 15, which the node
20 owns when it has joined, and the node 20 does not get it. -/
theorem join_not_handsOff :
    ¬ ∀ (D : Directory) (R : Finset NodeId) (d : NodeId) (net : Network Unit) (bootstrap : String),
      D.ids = insert d R → d ∉ R → R.Nonempty → D.Runs net → D.ExactPointers R net.node →
      D.New d net →
      Returns (findJoinSuccessor (env reliable 3 (D.info d).address) bootstrap) net
        (fun r _ => r = some (D.info (next R d))) →
      Returns (do
          join (env reliable 3 (D.info d).address) (some bootstrap)
          stabilize (env reliable 3 (D.info d).address)) net
        fun _ net' => ∀ k, Directory.Owns R d k →
          ∀ v ∈ (D.at' net.node (next R d)).valuesAt k, v ∈ (D.at' net'.node d).valuesAt k := by
  intro hall
  have hhand := hall (Directory.ofIds pairIds) {biguintToNodeId 10} (biguintToNodeId 20)
    (keeper (biguintToNodeId 15)) (infoOf (biguintToNodeId 10)).address pairIds_eq_insert
    (by decide) (Finset.singleton_nonempty _) (keeper_runs _ _) (keeper_exactPointers _)
    (keeper_new _) (keeper_find _)
  obtain ⟨_, net', -, hgets, -, hdata⟩ := hhand.and (Directory.join_stabilize_outside
    pairIds_eq_insert (by decide) (Finset.singleton_nonempty _) (keeper_runs _ _)
    (keeper_exactPointers _) (keeper_new _) (keeper_find _))
  -- The key 15 belongs to the new node, and node 10 holds a value under it.
  have howns : Directory.Owns {biguintToNodeId 10} (biguintToNodeId 20) (biguintToNodeId 15) := by
    rw [Directory.Owns, prev_singleton]
    decide
  have hheld : ((Directory.ofIds pairIds).at' (keeper (biguintToNodeId 15)).node
      (biguintToNodeId 10)).valuesAt (biguintToNodeId 15) = [[1]] := by
    rw [keeper_at, ChordNode.valuesAt]
    show ((if biguintToNodeId 10 = biguintToNodeId 10
      then (∅ : DataMap).insert (biguintToNodeId 15) [[1]] else ∅).lookup _).getD [] = _
    rw [if_pos rfl, AList.lookup_insert]
    rfl
  have hmem := hgets (biguintToNodeId 15) howns [1] (by
    rw [next_singleton, hheld]
    exact List.mem_singleton_self _)
  -- The handed off range is not the owned one, so the new node has what it began with.
  rw [ChordNode.valuesAt, hdata _ (Directory.not_handedOff_of_owns (by decide)
    (Finset.singleton_nonempty _) howns), (keeper_new _).data] at hmem
  exact List.not_mem_nil hmem

end TaceChat
