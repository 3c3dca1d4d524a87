import TaceChat.Proofs.ReadOnly
import TaceChat.Proofs.Rounds

/-!
# What the tasks of a node write

Among all their sections, the tasks of a node make few kinds of writes. `TaskRules I R` lists them
with what is known where they are made, and demands that each keeps `I` and changes the state by
`R`. The rules of this module follow the tasks once: `TaskRules.task` is the specification of every
task but `join` without a bootstrap address, whose writes are for a node that is alone. So an
invariant of a running node takes one check for each kind of write.

A successor or a predecessor that is written never has the node's own id, because each writer
compares the ids first. The comparison may be older than the write, so `Foreign I` speaks of the id
in some state with `I`.
-/

set_option autoImplicit false

namespace TaceChat

section Rules

variable (I : ChordNode → Prop) (R : ChordNode → ChordNode → Prop)

/-- A write that keeps `I` and changes the state by `R`. -/
def Allows (update : ChordNode → ChordNode) : Prop := ∀ n, I n → I (update n) ∧ R n (update n)

/-- Its id was found to differ from the node's own. -/
def Foreign (x : NodeInfo) : Prop := ∃ n, I n ∧ x.id ≠ n.info.id

/-- What an invariant `I` and a relation `R` of the states have to allow, so that every task of a
node keeps them: one field for each kind of write. -/
structure TaskRules : Prop where
  refl : ∀ n, R n n
  trans : ∀ n n' n'', R n n' → R n' n'' → R n n''
  extendKey : ∀ key values, Allows I R fun n => n.extendKey key values
  /-- A key is only removed for a migration. -/
  removeKey : ∀ key, (∃ n nodes, I n ∧ n.migrationTarget nodes ≠ none) →
    Allows I R fun n => n.removeKey key
  setSuccessor : ∀ x, Foreign I x → Allows I R fun n => { n with successor := x }
  setSuccessorList : ∀ nodes : List NodeInfo, nodes.length = successorListSize →
    Allows I R fun n => { n with successorList := nodes }
  setPredecessor : ∀ p : Option NodeInfo, (∀ x, p = some x → Foreign I x) →
    Allows I R fun n => { n with predecessor := p }
  setFinger : ∀ i x, Allows I R fun n => { n with fingerTable := n.fingerTable.set i x }
  setMetrics : ∀ f : ChordNode → Option NetworkMetrics,
    Allows I R fun n => { n with metrics := f n }
  /-- A node records its own load only. -/
  updateNodeLoad : ∀ load : ℚ, load ≤ 1 → Allows I R fun n => n.updateNodeLoad n.info.id load

end Rules

namespace TaskRules

open Prog

variable {I : ChordNode → Prop} {R : ChordNode → ChordNode → Prop} {α β : Type}

/-- An update that is allowed is a step that is allowed. -/
theorem write {update : ChordNode → ChordNode} (h : Allows I R update) :
    Spec I R (Prog.write update : NodeProg Unit) fun _ => True := by
  intro n hn
  obtain ⟨hI, hR⟩ := h n hn
  exact ⟨hI, hR, trivial⟩

/-- The loops over received data, by the rule of the one step. -/
theorem forEachValue (data : List (NodeId × List Value)) {act : NodeId → Value → NodeProg Unit}
    (hact : ∀ key value, Spec I R (act key value) fun _ => True) :
    Spec I R (Concurrent.forEachValue data act) fun _ => True :=
  Spec.forM fun entry _ => Spec.forM fun value _ => hact entry.1 value

/-- A walk asks at most its number of nodes. -/
theorem length_walkSuccessors (hrefl : ∀ n, R n n) (k : ℕ) : ∀ current,
    Spec I R (Concurrent.walkSuccessors k current) fun rest => rest.length ≤ k := by
  induction k with
  | zero =>
    intro current
    exact le_rfl
  | succ k ih =>
    intro current
    refine Spec.read_next hrefl ?_
    intro self _
    split
    · exact Nat.zero_le _
    · refine Spec.ask_next ?_
      intro r
      split
      · dsimp only
        split
        · exact Nat.zero_le _
        · refine (ih _).bind ?_
          intro rest hrest
          exact Nat.succ_le_succ hrest
      · exact Nat.zero_le _

variable (h : TaskRules I R)

include h

/-- After a read, the rest runs from a state with the invariant. -/
theorem read_next {f : ChordNode → NodeProg β} {Q : β → Prop}
    (hf : ∀ n, I n → Spec I R (f n) Q) : Spec I R (read >>= f) Q :=
  Spec.read_next h.refl hf

/-- What writes nothing comes before anything else. -/
theorem reads_next {p : NodeProg α} (hp : p.Reads) {f : α → NodeProg β} {Q : β → Prop}
    (hf : ∀ a, Spec I R (f a) Q) : Spec I R (p >>= f) Q :=
  (hp.spec h.refl).next hf

/-! ### Data -/

/-- `store` appends, and the replication only reads. -/
theorem store (key : NodeId) (value : Value) :
    Spec I R (Concurrent.store key value) fun _ => True :=
  (write (h.extendKey key [value])).next fun _ =>
    (Concurrent.reads_replicateData key [value]).spec h.refl

/-- Replicas are appended. -/
theorem handleReplicateData (key : NodeId) (values : List Value) (replicaId : UInt8) :
    Spec I R (Concurrent.handleReplicateData key values replicaId) fun _ => True :=
  (write (h.extendKey key values)).next fun _ => trivial

/-- The data of a joining node is stored value by value. -/
theorem pullData (successorInfo : NodeInfo) :
    Spec I R (Concurrent.pullData successorInfo) fun _ => True := by
  refine h.read_next ?_
  intro self _
  refine Spec.ask_next ?_
  intro r
  split
  · exact forEachValue _ h.store
  · trivial

/-- Recovered data is appended, entry by entry. -/
theorem recover (replicas : List (NodeId × List Value)) :
    Allows I R fun n => n.recover replicas := by
  induction replicas with
  | nil =>
    intro n hn
    exact ⟨hn, h.refl n⟩
  | cons entry replicas ih =>
    intro n hn
    obtain ⟨hI, hR⟩ := h.extendKey entry.1 entry.2 n hn
    obtain ⟨hI', hR'⟩ := ih _ hI
    exact ⟨hI', h.trans _ _ _ hR hR'⟩

/-! ### Maintenance -/

/-- One finger is written. -/
theorem fixFingers (i : ℕ) : Spec I R (Concurrent.fixFingers i) fun _ => True := by
  refine h.read_next ?_
  intro self _
  refine h.reads_next (Concurrent.reads_findSuccessor _) ?_
  intro successor
  exact write (h.setFinger i successor)

/-- A joining node refuses itself as its successor. -/
theorem join (address : String) : Spec I R (Concurrent.join (some address)) fun _ => True := by
  have hfound : Spec I R (Concurrent.findJoinSuccessor address) fun found =>
      ∀ x, found = some x → Foreign I x := by
    refine h.read_next ?_
    intro self hself
    refine Spec.ask_next ?_
    intro r
    split
    · split
      · rintro x ⟨⟩
      · next hne =>
        rintro x ⟨⟩
        exact ⟨self, hself, hne⟩
    · rintro x ⟨⟩
  refine hfound.bind ?_
  intro found hforeign
  cases found with
  | none => trivial
  | some successorInfo =>
    refine (write (h.setSuccessor successorInfo (hforeign _ rfl))).next ?_
    intro _
    exact h.pullData successorInfo

/-- The list is replaced by the walk. -/
theorem updateSuccessorList : Spec I R Concurrent.updateSuccessorList fun _ => True := by
  refine h.read_next ?_
  intro self _
  refine (length_walkSuccessors h.refl _ _).bind ?_
  intro rest hrest
  refine write (h.setSuccessorList _ ?_)
  -- The walk leaves room for the successor, and the rest is filled up.
  simp only [fillSuccessorList, List.length_append, List.length_cons, List.length_replicate]
  have hsize : successorListSize = 3 := rfl
  omega

/-- The next available successor is not the node itself. -/
theorem firstReachable (nodes : List NodeInfo) :
    Spec I R (Concurrent.firstReachable nodes) fun found =>
      ∀ x, found = some x → Foreign I x := by
  induction nodes with
  | nil => rintro x ⟨⟩
  | cons successor rest ih =>
    refine h.read_next ?_
    intro self hself
    split
    · exact ih
    · next hne =>
      refine Spec.ask_next ?_
      intro r
      split
      · rintro x ⟨⟩
        exact ⟨self, hself, hne⟩
      · exact ih

/-- A successor that does not answer is replaced. -/
theorem replaceSuccessor : Spec I R Concurrent.replaceSuccessor fun _ => True := by
  refine (h.read_next fun self _ => h.firstReachable self.successorList).bind ?_
  intro found hforeign
  cases found with
  | none => trivial
  | some newSuccessor =>
    refine (write (h.setSuccessor newSuccessor (hforeign _ rfl))).next ?_
    intro _
    exact h.updateSuccessorList

/-- The interval that a new successor lies in does not contain the node itself. -/
theorem adoptSuccessor (successor x : NodeInfo) :
    Allows I R fun n => n.adoptSuccessor successor x := by
  intro n hn
  show I (n.adoptSuccessor successor x) ∧ R n (n.adoptSuccessor successor x)
  unfold ChordNode.adoptSuccessor
  split
  · next hbetween =>
    refine h.setSuccessor x ⟨n, hn, ?_⟩ n hn
    intro heq
    rw [heq] at hbetween
    exact isBetween_start _ _ hbetween
  · exact ⟨hn, h.refl n⟩

/-- A successor that answers is adopted or kept. -/
theorem notifySuccessor (successor : NodeInfo) (response : DhtMessage) :
    Spec I R (Concurrent.notifySuccessor successor response) fun _ => True := by
  -- The notification and the new list follow, whether the successor was adopted or not.
  have hrest : Spec I R (do
      let self ← Prog.read
      discard <| Concurrent.callNode self.successor.address
        (.notify self.info.id self.info.address self.info.apiAddress)
      Concurrent.updateSuccessorList) fun _ => True := by
    refine h.read_next ?_
    intro self _
    refine (spec_ask _).discard.next ?_
    intro _
    exact h.updateSuccessorList
  unfold Concurrent.notifySuccessor
  split
  · exact (write (h.adoptSuccessor _ _)).next fun _ => hrest
  · exact hrest

/-- The branches of `stabilize`. -/
theorem stabilize : Spec I R Concurrent.stabilize fun _ => True := by
  refine h.read_next ?_
  intro self _
  split
  · exact write (h.setPredecessor none (by rintro x ⟨⟩))
  · refine Spec.ask_next ?_
    intro r
    cases r with
    | none => exact h.replaceSuccessor
    | some response => exact h.notifySuccessor _ response

/-- A notification by another node: it becomes the predecessor, and the successor of a node that was
alone. -/
theorem notifyUpdate {nPrime : NodeInfo} (hforeign : Foreign I nPrime) :
    Allows I R fun n => (n.notifyUpdate nPrime).getD n := by
  intro n hn
  have hpred := h.setPredecessor (some nPrime) (by rintro x ⟨⟩; exact hforeign) n hn
  show I ((n.notifyUpdate nPrime).getD n) ∧ R n ((n.notifyUpdate nPrime).getD n)
  cases hupdate : n.notifyUpdate nPrime with
  | none => exact ⟨hn, h.refl n⟩
  | some n' =>
    obtain ⟨heq, hsucc⟩ := ChordNode.notifyUpdate_frame hupdate
    show I n' ∧ R n n'
    rw [heq]
    rcases hsucc with hsucc | hsucc
    · rw [hsucc]
      obtain ⟨hI, hR⟩ := h.setSuccessor nPrime hforeign _ hpred.1
      exact ⟨hI, h.trans _ _ _ hpred.2 hR⟩
    · rw [hsucc]
      exact hpred

/-- A notification sets the predecessor or leaves it. -/
theorem notify (nPrime : NodeInfo) : Spec I R (Concurrent.notify nPrime) fun _ => True := by
  refine h.read_next ?_
  intro self hself
  split
  · trivial
  · next hne =>
    refine Spec.atomic_next ?_
    intro before hbefore
    -- The notification is handled in the state that its second section finds.
    obtain ⟨hI, hR⟩ := h.notifyUpdate ⟨self, hself, hne⟩ before hbefore
    refine ⟨hI, hR, ?_⟩
    split
    · refine h.read_next ?_
      intro after _
      exact forEachValue _ fun key value => (spec_ask _).discard
    · trivial

/-- What one node sends back is appended. -/
theorem recoverFrom (startRange endRange : NodeId) (node : NodeInfo) :
    Spec I R (Concurrent.recoverFrom startRange endRange node) fun _ => True := by
  refine h.read_next ?_
  intro self _
  split
  · trivial
  · refine Spec.ask_next ?_
    intro r
    split
    · exact write (h.recover _)
    · trivial

/-- The recovery appends only. -/
theorem reconcileDataAfterPredecessorFailure (failedPredecessor : NodeInfo) :
    Spec I R (Concurrent.reconcileDataAfterPredecessorFailure failedPredecessor) fun _ => True :=
  h.read_next fun _ _ => h.read_next fun _ _ => h.read_next fun _ _ =>
    Spec.forM fun node _ => h.recoverFrom _ _ node

/-- The predecessor is cleared before the recovery. -/
theorem checkPredecessor : Spec I R Concurrent.checkPredecessor fun _ => True := by
  refine h.read_next ?_
  intro self _
  split
  · trivial
  · refine Spec.ask_next ?_
    intro r
    split
    · trivial
    · refine (write (h.setPredecessor none (by rintro x ⟨⟩))).next ?_
      intro _
      exact h.reconcileDataAfterPredecessorFailure _

/-! ### Metrics and load -/

/-- The averages of the metrics are written. -/
theorem handleShareMetrics (incoming : NetworkMetrics) :
    Spec I R (Concurrent.handleShareMetrics incoming) fun _ => True := by
  refine Spec.atomic_next ?_
  intro self hself
  obtain ⟨hI, hR⟩ := h.setMetrics
    (fun n => n.metrics.bind fun metrics => ChordNode.averageMetrics metrics incoming) self hself
  refine ⟨hI, hR, ?_⟩
  -- The reply depends on whether the lock of the metrics was poisoned.
  split
  · trivial
  · trivial

/-- The node's own metrics are written. -/
theorem updateLocalMetrics : Spec I R Concurrent.updateLocalMetrics fun _ => True :=
  h.read_next fun _ _ => h.read_next fun _ _ => h.read_next fun _ _ => write (h.setMetrics _)

/-- The exchange with one finger writes metrics only. -/
theorem shareAndUpdateMetrics (i : ℕ) :
    Spec I R (Concurrent.shareAndUpdateMetrics i) fun _ => True := by
  refine h.updateLocalMetrics.next ?_
  intro _
  refine h.read_next ?_
  intro before _
  refine h.read_next ?_
  intro self _
  split
  · trivial
  · split
    · trivial
    · refine h.read_next ?_
      intro now _
      split
      · trivial
      · refine Spec.ask_next ?_
        intro r
        split
        · exact (h.handleShareMetrics _).discard
        · trivial

/-- A migration that a state with `I` has led to. -/
theorem migrateKeyToNode (key : NodeId) (targetNode : NodeInfo)
    (htarget : ∃ n nodes, I n ∧ n.migrationTarget nodes ≠ none) :
    Spec I R (Concurrent.migrateKeyToNode key targetNode) fun _ => True := by
  refine Spec.atomic_next ?_
  intro self hself
  obtain ⟨hI, hR⟩ := h.removeKey key htarget self hself
  refine ⟨hI, hR, ?_⟩
  split
  · trivial
  · refine Spec.forM fun value _ => Spec.ask_next ?_
    intro r
    cases r with
    | none => exact write (h.extendKey key [value])
    | some _ => trivial

/-- A key is removed only when the selected nodes have a target for it. -/
theorem rebalanceKey (key : NodeId) : Spec I R (Concurrent.rebalanceKey key) fun _ => True := by
  refine h.reads_next (Concurrent.reads_getReplicaNodes key) ?_
  intro replicaNodes
  refine h.read_next ?_
  intro self hself
  cases htarget : self.migrationTarget replicaNodes with
  | none => trivial
  | some targetNode =>
    refine h.migrateKeyToNode key targetNode ⟨self, replicaNodes, hself, ?_⟩
    rw [htarget]
    exact Option.some_ne_none targetNode

/-- The balancing goes through the keys. -/
theorem rebalanceData : Spec I R Concurrent.rebalanceData fun _ => True :=
  h.read_next fun _ _ => Spec.forM fun key _ => h.rebalanceKey key

/-- A calculated load is at most 1. -/
theorem calculateCurrentLoad (connections : ℕ) :
    Spec I R (Concurrent.calculateCurrentLoad connections) fun load => load ≤ 1 :=
  h.read_next fun _ _ => h.read_next fun _ _ => min_le_right _ _

/-- The load is recorded and published before the balancing. -/
theorem checkAndRebalance (connections connections' : ℕ) :
    Spec I R (Concurrent.checkAndRebalance connections connections') fun _ => True := by
  refine (h.calculateCurrentLoad connections).bind ?_
  -- The load was computed from an older state, but its cap does not depend on the state.
  intro load hload
  refine (write (h.updateNodeLoad load hload)).next ?_
  intro _
  refine (write (h.setMetrics _)).next ?_
  intro _
  split
  · exact h.rebalanceData
  · trivial

/-! ### Tasks -/

/-- The handler of a message, message by message. -/
theorem handleConnection (message : DhtMessage) :
    Spec I R (Concurrent.handleConnection message) fun _ => True := by
  cases message with
  | findSuccessor id => exact h.reads_next (Concurrent.reads_findSuccessor id) fun _ => trivial
  | findPredecessor id => exact h.reads_next (Concurrent.reads_findPredecessor id) fun _ => trivial
  | getSuccessor => exact h.read_next fun _ _ => trivial
  | closestPrecedingNode id => exact h.read_next fun _ _ => trivial
  | store key value => exact (h.store key value).next fun _ => trivial
  | retrieve key => exact h.reads_next (Concurrent.reads_retrieve key) fun _ => trivial
  | getPredecessor => exact h.read_next fun _ _ => trivial
  | notify id address apiAddress => exact (h.notify _).next fun _ => trivial
  | getDataRange start «end» => exact h.read_next fun _ _ => trivial
  | shareMetrics metrics => exact (h.handleShareMetrics metrics).next fun _ => trivial
  | replicateData key values replicaId =>
    exact (h.handleReplicateData key values replicaId).next fun _ => trivial
  | requestReplicas keyRangeStart keyRangeEnd => exact h.read_next fun _ _ => trivial
  | ping | error | foundSuccessor | foundPredecessor | predecessor | retrieved
  | foundClosestPrecedingNode | pong | dataRange | metricsShared | replicationAck | replicaData =>
    trivial

/-- The store that a posted message starts. -/
theorem storeAtResponsible (key : NodeId) (serialized : Value) :
    Spec I R (Concurrent.storeAtResponsible key serialized) fun _ => True := by
  refine h.reads_next (Concurrent.reads_findSuccessor key) ?_
  intro responsibleNode
  refine h.read_next ?_
  intro self _
  split
  · exact h.store key serialized
  · exact (spec_ask _).discard

/-- The read that a poll starts. -/
theorem retrieveAtResponsible (key : NodeId) :
    Spec I R (Concurrent.retrieveAtResponsible key) fun _ => True := by
  refine h.reads_next (Concurrent.reads_findSuccessor key) ?_
  intro responsibleNode
  refine h.read_next ?_
  intro self _
  split
  · exact ((Concurrent.reads_retrieve key).spec h.refl).discard
  · exact (spec_ask _).discard

/-- Every task but the start of a new network. -/
theorem task {task : NodeTask} (htask : task ≠ .join none) :
    Spec I R task.prog fun _ => True := by
  cases task with
  | connection message => exact (h.handleConnection message).discard
  | join bootstrapAddress =>
    cases bootstrapAddress with
    | none => exact absurd rfl htask
    | some address => exact h.join address
  | stabilize => exact h.stabilize
  | fixFingers i => exact h.fixFingers i
  | checkPredecessor => exact h.checkPredecessor
  | shareAndUpdateMetrics i => exact h.shareAndUpdateMetrics i
  | checkAndRebalance connections connections' => exact h.checkAndRebalance connections connections'
  | postMessage key serialized => exact h.storeAtResponsible key serialized
  | pollMessages key => exact h.retrieveAtResponsible key

end TaskRules

end TaceChat
