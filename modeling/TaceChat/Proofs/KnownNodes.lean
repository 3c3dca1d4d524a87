import TaceChat.Proofs.Calls
import TaceChat.Proofs.ClosestFinger

/-!
# Lookups read, and stay among the known nodes

A lookup changes no node, whatever the medium does to its calls. When the nodes report only known
infos (`Closed K`), the result of a lookup is known too. `K` is a parameter: with `K` always true
the lemmas say only that no node changes.
-/

set_option autoImplicit false

namespace TaceChat

/-- All node infos that `n` holds satisfy `K`. -/
structure Reports (K : NodeInfo → Prop) (n : ChordNode) : Prop where
  info : K n.info
  successor : K n.successor
  successorList : ∀ x ∈ n.successorList, K x
  predecessor : ∀ x, n.predecessor = some x → K x
  fingerTable : ∀ x ∈ n.fingerTable, K x

/-- Every node reports infos. -/
theorem Reports.any (n : ChordNode) : Reports (fun _ => True) n :=
  ⟨trivial, trivial, fun _ _ => trivial, fun _ _ => trivial, fun _ _ => trivial⟩

/-- The closest preceding finger is one of the infos of the node. -/
theorem Reports.closestPrecedingNode {K : NodeInfo → Prop} {n : ChordNode} (h : Reports K n)
    (id : NodeId) : K (n.closestPrecedingNode id) := by
  rcases n.closestPrecedingNode_mem id with hself | hfinger
  · rw [hself]
    exact h.info
  · exact h.fingerTable _ hfinger

/-- The candidates for a replica are infos of the node. -/
theorem Reports.replicaCandidates {K : NodeInfo → Prop} {n : ChordNode} (h : Reports K n)
    (primary : NodeInfo) : ∀ x ∈ n.replicaCandidates primary, K x := by
  intro x hx
  simp only [ChordNode.replicaCandidates, List.mem_insertionSort, List.mem_filter] at hx
  have hsub := (List.destutter_sublist _ _).subset hx.1
  rw [List.mem_insertionSort, List.mem_append] at hsub
  rcases hsub with hlist | hfinger
  · exact h.successorList x hlist
  · simp only [ChordNode.sampledFingers, List.mem_map, List.mem_filter] at hfinger
    obtain ⟨p, ⟨hp, -⟩, rfl⟩ := hfinger
    exact h.fingerTable p.1 (List.fst_mem_of_mem_zipIdx hp)

namespace Network

variable {φ : Type} {medium : Medium φ} {depth : ℕ} {a : String} {net : Network φ}
  {K : NodeInfo → Prop}

/-- Every known node reports only known infos. -/
def Closed (K : NodeInfo → Prop) (net : Network φ) : Prop :=
  ∀ x, K x → Reports K (net.node x.address)

/-- Every network is closed when any info may be held. -/
theorem Closed.any (net : Network φ) : Closed (fun _ => True) net := fun _ _ => .any _

/-- The same nodes know the same infos. -/
theorem Closed.sameNodes {net' : Network φ} (h : Closed K net) (hs : SameNodes net net') :
    Closed K net' := by
  intro x hx
  rw [hs.1]
  exact h x hx

/-- What a lookup guarantees: no node changes, and the result is known. -/
def Finds (K : NodeInfo → Prop) (net : Network φ) (r : Option NodeInfo) (net' : Network φ) :
    Prop :=
  SameNodes net net' ∧ ∀ x, r = some x → K x

section
variable (hK : Closed K net) (ha : Reports K (net.node a))

include hK ha

/-- The next node of the walk, where it is found, is a known one. -/
theorem nextNode_finds (id : NodeId) {nPrime : NodeInfo} (hn : K nPrime) :
    Returns (nextNode (env medium (depth + 1) a) id nPrime) net (Finds K net) := by
  simp only [nextNode, returns_bind, returns_safeLock, returns_ite, env_node,
    env_callNode]
  refine ⟨fun _ => ?_, fun _ => ?_⟩
  · refine returns_pure.mpr ⟨.refl net, ?_⟩
    rintro x ⟨⟩
    exact ha.closestPrecedingNode id
  · refine (call_read rfl).mono ?_
    rintro r net' ⟨hs, rfl | rfl⟩
    · simp [Finds, hs]
    · refine returns_pure.mpr ⟨hs, ?_⟩
      rintro x ⟨⟩
      exact (hK nPrime hn).closestPrecedingNode id

/-- The successor of a known node is known. -/
theorem successorOf_finds {nPrime : NodeInfo} (hn : K nPrime) :
    Returns (successorOf (env medium (depth + 1) a) nPrime) net (Finds K net) := by
  simp only [successorOf, returns_bind, returns_safeLock, returns_ite, env_node,
    env_callNode]
  refine ⟨fun _ => ?_, fun _ => ?_⟩
  · refine returns_pure.mpr ⟨.refl net, ?_⟩
    rintro x ⟨⟩
    exact ha.successor
  · refine (call_read rfl).mono ?_
    rintro r net' ⟨hs, rfl | rfl⟩
    · simp [Finds, hs]
    · refine returns_pure.mpr ⟨hs, ?_⟩
      rintro x ⟨⟩
      exact (hK nPrime hn).successor

end

/-- The walk goes from known node to known node, by induction on its retries. -/
theorem findPredecessorLoop_finds (id : NodeId) (retries : ℕ) :
    ∀ {net : Network φ} {nPrime successor : NodeInfo}, Closed K net → Reports K (net.node a) →
      K nPrime →
      Returns (findPredecessorLoop (env medium (depth + 1) a) id retries nPrime successor) net
        fun r net' => SameNodes net net' ∧ K r := by
  induction retries with
  | zero =>
    intro net nPrime successor hK ha hn
    unfold findPredecessorLoop
    split <;> exact returns_pure.mpr ⟨.refl net, hn⟩
  | succ retries ih =>
    intro net nPrime successor hK ha hn
    unfold findPredecessorLoop
    split
    · exact returns_pure.mpr ⟨.refl net, hn⟩
    · refine (nextNode_finds hK ha id hn).bind ?_
      rintro (_ | next) net₁ ⟨h₁, hnext⟩
      · exact returns_pure.mpr ⟨h₁, hn⟩
      · -- The walk moves on to a known node and asks it for its successor.
        have hnext := hnext next rfl
        dsimp only
        split
        · exact returns_pure.mpr ⟨h₁, hn⟩
        · have hK₁ := hK.sameNodes h₁
          have ha₁ : Reports K (net₁.node a) := by rw [h₁.1]; exact ha
          refine (successorOf_finds hK₁ ha₁ hnext).bind ?_
          rintro (_ | succ) net₂ ⟨h₂, -⟩
          · exact returns_pure.mpr ⟨h₁.trans h₂, hnext⟩
          · have ha₂ : Reports K (net₂.node a) := by rw [h₂.1]; exact ha₁
            refine (ih (hK₁.sameNodes h₂) ha₂ hnext).mono ?_
            rintro r net' ⟨h₃, hr⟩
            exact ⟨(h₁.trans h₂).trans h₃, hr⟩

/-- The first node that answers is one of the list. -/
theorem firstReachable_finds : ∀ {net : Network φ} {l : List NodeInfo}, (∀ x ∈ l, K x) →
    Returns (firstReachable (env medium (depth + 1) a) l) net (Finds K net) := by
  intro net l hl
  induction l generalizing net with
  | nil => exact returns_pure.mpr ⟨.refl net, by simp⟩
  | cons successor rest ih =>
    have hrest : ∀ x ∈ rest, K x := fun x hx => hl x (List.mem_cons_of_mem _ hx)
    simp only [firstReachable, returns_bind, returns_safeLock, returns_ite, env_node,
    env_callNode]
    refine ⟨fun _ => ?_, fun _ => ?_⟩
    · exact ih hrest
    · refine (call_read rfl).mono ?_
      rintro r net' ⟨hs, rfl | rfl⟩
      · refine (ih hrest).mono ?_
        rintro r net'' ⟨hs', hr⟩
        exact ⟨hs.trans hs', hr⟩
      · refine returns_pure.mpr ⟨hs, ?_⟩
        rintro x ⟨⟩
        exact hl successor List.mem_cons_self

/-- A lookup finds a known node and writes nothing. -/
theorem findSuccessor_finds (hK : Closed K net) (ha : Reports K (net.node a)) (id : NodeId) :
    Returns (findSuccessor (env medium (depth + 1) a) id) net
      fun r net' => SameNodes net net' ∧ K r := by
  have hpred : Returns (findPredecessor (env medium (depth + 1) a) id) net
      fun r net' => SameNodes net net' ∧ K r := by
    simp only [findPredecessor, returns_bind, returns_safeLock, env_node]
    exact findPredecessorLoop_finds id maxRetries hK ha ha.info
  refine hpred.bind ?_
  rintro predecessor net₁ ⟨h₁, hp⟩
  have ha₁ : Reports K (net₁.node a) := by rw [h₁.1]; exact ha
  simp only [returns_bind, returns_safeLock, returns_ite, env_node,
    env_callNode]
  refine ⟨fun _ => ?_, fun _ => ?_⟩
  · exact returns_pure.mpr ⟨h₁, ha₁.successor⟩
  · refine (call_read rfl).mono ?_
    rintro r net₂ ⟨h₂, rfl | rfl⟩
    · have ha₂ : Reports K (net₂.node a) := by rw [h₂.1]; exact ha₁
      simp only [findNextAvailableSuccessor, returns_bind, returns_safeLock, env_node]
      refine (firstReachable_finds ha₂.successorList).mono ?_
      rintro (_ | next) net₃ ⟨h₃, hr⟩
      · simp only [returns_bind, returns_safeLock, env_node, returns_pure]
        refine ⟨(h₁.trans h₂).trans h₃, ?_⟩
        rw [h₃.1]
        exact ha₂.successor
      · exact returns_pure.mpr ⟨(h₁.trans h₂).trans h₃, hr next rfl⟩
    · refine returns_pure.mpr ⟨h₁.trans h₂, ?_⟩
      exact ((hK.sameNodes h₁) predecessor hp).successor

/-- The node itself is known, too. -/
theorem findSuccessorWithVirtualNodes_finds (hK : Closed K net) (ha : Reports K (net.node a))
    (key : NodeId) :
    Returns (findSuccessorWithVirtualNodes (env medium (depth + 1) a) key) net
      fun r net' => SameNodes net net' ∧ K r := by
  simp only [findSuccessorWithVirtualNodes, returns_bind, returns_safeLock, returns_ite, env_node]
  refine ⟨fun _ => ?_, fun _ => ?_⟩
  · exact returns_pure.mpr ⟨.refl net, ha.info⟩
  · exact findSuccessor_finds hK ha key

/-- The primary node is a known one, and the others are the first candidates beside it. -/
theorem getReplicaNodes_finds (hK : Closed K net) (ha : Reports K (net.node a)) (key : NodeId) :
    Returns (getReplicaNodes (env medium (depth + 1) a) key) net fun r net' =>
      SameNodes net net' ∧ ∃ primary, K primary ∧
        r = primary :: ((net.node a).replicaCandidates primary).take (replicationFactor - 1) := by
  refine (findSuccessorWithVirtualNodes_finds hK ha key).bind ?_
  rintro primary net' ⟨hs, hp⟩
  simp only [returns_bind, returns_safeLock, env_node, returns_pure]
  exact ⟨hs, primary, hp, by rw [hs.1]⟩

/-- The lookup of a joining node, at a known bootstrap node. -/
theorem findJoinSuccessor_finds (hK : Closed K net) {bootstrap : NodeInfo} (hb : K bootstrap) :
    Returns (findJoinSuccessor (env medium (depth + 2) a) bootstrap.address) net
      (Finds K net) := by
  simp only [findJoinSuccessor, returns_bind, returns_safeLock, env_node, env_callNode]
  have hcall : Returns (call medium (depth + 2) bootstrap.address
      (.findSuccessor (net.node a).info.id)) net fun r net' => SameNodes net net' ∧
        (r = none ∨ ∃ x, K x ∧ r = some (.foundSuccessor x.id x.address x.apiAddress)) := by
    refine returns_call_of_handler (fun _ => ⟨⟨rfl, rfl⟩, Or.inl rfl⟩) fun s => ?_
    simp only [handleConnection.eq_def, returns_bind, returns_pure]
    have hKs : Closed K { net with medium := s } := hK
    refine (findSuccessor_finds hKs (hKs bootstrap hb) _).mono ?_
    rintro r net' ⟨hs, hr⟩
    exact ⟨⟨hs, Or.inr ⟨r, hr, rfl⟩⟩, hs, Or.inl trivial⟩
  refine hcall.mono ?_
  rintro r net' ⟨hs, rfl | ⟨x, hx, rfl⟩⟩
  · exact returns_pure.mpr ⟨hs, by simp⟩
  · refine returns_ite.mpr ⟨fun _ => returns_pure.mpr ⟨hs, by simp⟩, fun _ => ?_⟩
    refine returns_pure.mpr ⟨hs, ?_⟩
    rintro y ⟨⟩
    exact hx

end Network

end TaceChat
