import TaceChat.Model.Concurrent
import TaceChat.Proofs.Rounds

/-!
# A task that runs alone

The operations of `Concurrent` are those of `Lookup`, `Storage`, `Maintenance` and `Network`, cut
into sections. When no other task runs in between, they do the same: `alone` executes the program of
an operation in the world of a node, and is the operation.
-/

set_option autoImplicit false

namespace TaceChat

variable {σ : Type}

/-- What is written to the state of the node is what is read from it. -/
structure NodeEnv.Lawful (env : NodeEnv σ) : Prop where
  node_setNode : ∀ n w, env.node (env.setNode n w) = n
  setNode_node : ∀ w, env.setNode (env.node w) w = w
  setNode_setNode : ∀ n n' w, env.setNode n (env.setNode n' w) = env.setNode n w

/-- The environment of a node in a network is lawful. -/
theorem Network.env_lawful {φ : Type} (medium : Medium φ) (depth : ℕ) (address : String) :
    (Network.env medium depth address).Lawful where
  node_setNode _ _ := Network.setNode_node_self
  setNode_node _ := Network.setNode_same
  setNode_setNode _ _ _ := Network.setNode_setNode

/-- Runs a program of a node without other tasks. -/
def alone {α : Type} (env : NodeEnv σ) (p : NodeProg α) : NodeM σ α :=
  Prog.run env.node env.setNode (fun call => env.callNode call.1 call.2) p

section Alone

variable {α β : Type} {env : NodeEnv σ}

/-- A program that has ended. -/
@[simp] theorem alone_pure (a : α) : alone env (pure a) = pure a := rfl

/-- Programs one after another. -/
@[simp] theorem alone_bind (p : NodeProg α) (f : α → NodeProg β) :
    alone env (p >>= f) = alone env p >>= fun a => alone env (f a) := Prog.run_bind p f

/-- A result that is thrown away. -/
@[simp] theorem alone_discard (p : NodeProg α) :
    alone env (discard p) = discard (alone env p) := by
  have hmap : discard (alone env p) = alone env p >>= fun _ => pure PUnit.unit := by
    rw [bind_pure_comp]
    rfl
  rw [hmap]
  exact alone_bind p _

/-- A request is a call. -/
@[simp] theorem alone_callNode (address : String) (m : DhtMessage) :
    alone env (Concurrent.callNode address m) = env.callNode address m := Prog.run_ask _

/-- A write is an update of the node. -/
@[simp] theorem alone_write (update : ChordNode → ChordNode) :
    alone env (Prog.write update) = env.safeUpdate update := rfl

/-- A read returns the node as it is, for one program has it to itself. -/
theorem alone_read (henv : env.Lawful) : alone env Prog.read = env.safeLock :=
  Prog.run_read henv.setNode_node

/-- A section that writes runs on with the state that it has found. -/
theorem alone_atomic_bind (update : ChordNode → ChordNode) (f : ChordNode → NodeProg α) (w : σ) :
    alone env (Prog.atomic update >>= f) w =
      alone env (f (env.node w)) (env.setNode (update (env.node w)) w) := rfl

/-- The branches of a condition. -/
@[simp] theorem alone_ite (c : Prop) [Decidable c] (p q : NodeProg α) :
    alone env (if c then p else q) = if c then alone env p else alone env q :=
  apply_ite (alone env) c p q

/-- A loop over a list. -/
@[simp] theorem alone_forM (l : List β) (f : β → NodeProg PUnit) :
    alone env (forM l f) = forM l fun b => alone env (f b) := by
  induction l with
  | nil => rfl
  | cons b l ih => rw [List.forM_cons, List.forM_cons, alone_bind, ih]

end Alone

section Operations

variable {env : NodeEnv σ} (henv : env.Lawful)
include henv

/-! ### Lookups -/

/-- The next node of the walk. -/
theorem alone_nextNode (id : NodeId) (nPrime : NodeInfo) :
    alone env (Concurrent.nextNode id nPrime) = nextNode env id nPrime := by
  simp only [Concurrent.nextNode, nextNode, alone_bind, alone_read henv, alone_ite, alone_pure,
    alone_callNode]
  refine bind_congr ?_
  intro self
  split
  · rfl
  · refine bind_congr ?_
    intro r
    cases r with
    | none => rfl
    | some m => cases m <;> rfl

/-- The successor of a node of the walk. -/
theorem alone_successorOf (nPrime : NodeInfo) :
    alone env (Concurrent.successorOf nPrime) = successorOf env nPrime := by
  simp only [Concurrent.successorOf, successorOf, alone_bind, alone_read henv, alone_ite,
    alone_pure, alone_callNode]
  refine bind_congr ?_
  intro self
  split
  · rfl
  · refine bind_congr ?_
    intro r
    cases r with
    | none => rfl
    | some m => cases m <;> rfl

/-- The loop of `find_predecessor`, by induction on its retries. -/
theorem alone_findPredecessorLoop (id : NodeId) : ∀ (retries : ℕ) (nPrime successor : NodeInfo),
    alone env (Concurrent.findPredecessorLoop id retries nPrime successor) =
      findPredecessorLoop env id retries nPrime successor := by
  intro retries
  induction retries with
  | zero =>
    intro nPrime successor
    simp only [Concurrent.findPredecessorLoop, findPredecessorLoop, alone_ite, alone_pure]
  | succ retries ih =>
    intro nPrime successor
    simp only [Concurrent.findPredecessorLoop, findPredecessorLoop, alone_ite, alone_pure,
      alone_bind, alone_nextNode henv]
    split
    · rfl
    · refine bind_congr ?_
      intro next
      -- A hop that fails ends the walk where it is.
      cases next with
      | none => rfl
      | some next =>
        simp only [alone_ite, alone_pure, alone_bind, alone_successorOf henv]
        split
        · rfl
        · refine bind_congr ?_
          intro successor
          cases successor with
          | none => rfl
          | some successor => exact ih next successor

/-- `find_predecessor` alone. -/
theorem alone_findPredecessor (id : NodeId) :
    alone env (Concurrent.findPredecessor id) = findPredecessor env id := by
  simp only [Concurrent.findPredecessor, findPredecessor, alone_bind, alone_read henv,
    alone_findPredecessorLoop henv]

/-- The search for a reachable successor, by induction on the list. -/
theorem alone_firstReachable (nodes : List NodeInfo) :
    alone env (Concurrent.firstReachable nodes) = firstReachable env nodes := by
  induction nodes with
  | nil => rfl
  | cons successor rest ih =>
    simp only [Concurrent.firstReachable, firstReachable, alone_bind, alone_read henv, alone_ite,
      alone_callNode, ih]
    refine bind_congr ?_
    intro self
    split
    · rfl
    · refine bind_congr ?_
      intro r
      cases r with
      | none => exact ih
      | some m =>
        -- Any other reply counts as no reply.
        cases m with
        | pong => rfl
        | _ => exact ih

/-- `find_next_available_successor` alone. -/
theorem alone_findNextAvailableSuccessor :
    alone env Concurrent.findNextAvailableSuccessor = findNextAvailableSuccessor env := by
  simp only [Concurrent.findNextAvailableSuccessor, findNextAvailableSuccessor, alone_bind,
    alone_read henv, alone_firstReachable henv]

/-- `find_successor` alone. -/
theorem alone_findSuccessor (id : NodeId) :
    alone env (Concurrent.findSuccessor id) = findSuccessor env id := by
  simp only [Concurrent.findSuccessor, findSuccessor, alone_bind, alone_read henv, alone_ite,
    alone_pure, alone_callNode, alone_findPredecessor henv]
  refine bind_congr ?_
  intro predecessor
  refine bind_congr ?_
  intro self
  split
  · rfl
  · refine bind_congr ?_
    intro r
    obtain _ | m := r
    on_goal 2 => cases m
    case some.foundSuccessor => rfl
    -- Every other reply is followed by the search of the successor list.
    all_goals
      simp only [alone_bind, alone_findNextAvailableSuccessor henv]
      refine bind_congr ?_
      intro next
      cases next with
      | none => simp only [alone_bind, alone_read henv, alone_pure]
      | some next => rfl

/-- `find_successor_with_virtual_nodes` alone. -/
theorem alone_findSuccessorWithVirtualNodes (key : NodeId) :
    alone env (Concurrent.findSuccessorWithVirtualNodes key) =
      findSuccessorWithVirtualNodes env key := by
  simp only [Concurrent.findSuccessorWithVirtualNodes, findSuccessorWithVirtualNodes, alone_bind,
    alone_read henv, alone_ite, alone_pure, alone_findSuccessor henv]

/-- `fix_fingers` alone. -/
theorem alone_fixFingers (i : ℕ) : alone env (Concurrent.fixFingers i) = fixFingers env i := by
  simp only [Concurrent.fixFingers, fixFingers, alone_bind, alone_read henv, alone_write,
    alone_findSuccessor henv]

/-! ### Data -/

/-- `get_replica_nodes` alone. -/
theorem alone_getReplicaNodes (key : NodeId) :
    alone env (Concurrent.getReplicaNodes key) = getReplicaNodes env key := by
  simp only [Concurrent.getReplicaNodes, getReplicaNodes, alone_bind, alone_read henv, alone_pure,
    alone_findSuccessorWithVirtualNodes henv]
  rfl

/-- One replication request. -/
theorem alone_replicateTo (key : NodeId) (values : List Value) (i : ℕ) (node : NodeInfo) :
    alone env (Concurrent.replicateTo key values i node) = replicateTo env key values i node := by
  simp only [Concurrent.replicateTo, replicateTo, alone_bind, alone_read henv, alone_ite,
    alone_pure, alone_discard, alone_callNode]

/-- `replicate_data` alone. -/
theorem alone_replicateData (key : NodeId) (values : List Value) :
    alone env (Concurrent.replicateData key values) = replicateData env key values := by
  simp only [Concurrent.replicateData, replicateData, alone_bind, alone_forM,
    alone_getReplicaNodes henv, alone_replicateTo henv]

/-- `store` alone. -/
theorem alone_store (key : NodeId) (value : Value) :
    alone env (Concurrent.store key value) = store env key value := by
  simp only [Concurrent.store, store, alone_bind, alone_write, alone_replicateData henv]

/-- The loop of `retrieve_from_replicas`, by induction on the nodes. -/
theorem alone_tryReplicas (key : NodeId) (nodes : List NodeInfo) :
    alone env (Concurrent.tryReplicas key nodes) = tryReplicas env key nodes := by
  induction nodes with
  | nil => rfl
  | cons node rest ih =>
    simp only [Concurrent.tryReplicas, tryReplicas, alone_bind, alone_read henv, alone_ite,
      alone_callNode, ih]
    refine bind_congr ?_
    intro self
    split
    · rfl
    · refine bind_congr ?_
      intro r
      cases r with
      | none => exact ih
      | some m =>
        -- The loop goes on after every reply without a value.
        cases m with
        | retrieved k value =>
          cases value with
          | none => exact ih
          | some value => rfl
        | _ => exact ih

/-- `retrieve` alone. -/
theorem alone_retrieve (key : NodeId) :
    alone env (Concurrent.retrieve key) = retrieve env key := by
  simp only [Concurrent.retrieve, retrieve, alone_bind, alone_read henv]
  refine bind_congr ?_
  intro self
  cases self.data.lookup key with
  | some value => rfl
  | none =>
    simp only [Concurrent.retrieveFromReplicas, retrieveFromReplicas, alone_bind,
      alone_read henv, alone_getReplicaNodes henv, alone_tryReplicas henv]

/-! ### Maintenance -/

omit henv in

/-- The loops over received data. -/
theorem alone_forEachValue (data : List (NodeId × List Value))
    (act : NodeId → Value → NodeProg Unit) :
    alone env (Concurrent.forEachValue data act) =
      forEachValue data fun key value => alone env (act key value) := by
  simp only [Concurrent.forEachValue, forEachValue, alone_forM]

/-- The lookup of a joining node. -/
theorem alone_findJoinSuccessor (address : String) :
    alone env (Concurrent.findJoinSuccessor address) = findJoinSuccessor env address := by
  simp only [Concurrent.findJoinSuccessor, findJoinSuccessor, alone_bind, alone_read henv,
    alone_callNode]
  refine bind_congr ?_
  intro self
  refine bind_congr ?_
  intro r
  cases r with
  | none => rfl
  | some m =>
    cases m with
    | foundSuccessor id address apiAddress => exact alone_ite _ _ _
    | _ => rfl

/-- The transfer to a joining node. -/
theorem alone_pullData (successorInfo : NodeInfo) :
    alone env (Concurrent.pullData successorInfo) = pullData env successorInfo := by
  simp only [Concurrent.pullData, pullData, alone_bind, alone_read henv, alone_callNode]
  refine bind_congr ?_
  intro self
  refine bind_congr ?_
  intro r
  cases r with
  | none => rfl
  | some m =>
    cases m with
    | dataRange data => simp only [alone_forEachValue, alone_store henv]
    | _ => rfl

/-- The three writes are one write when nothing comes in between. -/
theorem alone_startNewNetwork :
    alone env Concurrent.startNewNetwork = env.safeUpdate ChordNode.startNewNetwork := by
  simp only [Concurrent.startNewNetwork, alone_bind, alone_write]
  -- The later writes find what the earlier ones have left.
  funext w
  show some ((), _) = some ((), _)
  simp only [henv.node_setNode, henv.setNode_setNode]
  rfl

/-- `join` alone. -/
theorem alone_join (bootstrapAddress : Option String) :
    alone env (Concurrent.join bootstrapAddress) = join env bootstrapAddress := by
  cases bootstrapAddress with
  | none => exact alone_startNewNetwork henv
  | some address =>
    simp only [Concurrent.join, join, alone_bind, alone_findJoinSuccessor henv]
    refine bind_congr ?_
    intro found
    cases found with
    | none => rfl
    | some successorInfo => simp only [alone_bind, alone_write, alone_pullData henv]

/-- The walk along the successors, by induction on the entries to fill. -/
theorem alone_walkSuccessors (k : ℕ) : ∀ current,
    alone env (Concurrent.walkSuccessors k current) = walkSuccessors env k current := by
  induction k with
  | zero =>
    intro current
    rfl
  | succ k ih =>
    intro current
    simp only [Concurrent.walkSuccessors, walkSuccessors, alone_bind, alone_read henv, alone_ite,
      alone_pure, alone_callNode]
    refine bind_congr ?_
    intro self
    split
    · rfl
    · refine bind_congr ?_
      intro r
      cases r with
      | none => rfl
      | some m =>
        cases m with
        | foundSuccessor id address apiAddress => simp only [alone_ite, alone_bind, alone_pure, ih]
        | _ => rfl

/-- `update_successor_list` alone. -/
theorem alone_updateSuccessorList :
    alone env Concurrent.updateSuccessorList = updateSuccessorList env := by
  simp only [Concurrent.updateSuccessorList, updateSuccessorList, alone_bind, alone_read henv,
    alone_write, alone_walkSuccessors henv]

/-- The branch of `stabilize` for a successor that does not answer. -/
theorem alone_replaceSuccessor : alone env Concurrent.replaceSuccessor = replaceSuccessor env := by
  simp only [Concurrent.replaceSuccessor, replaceSuccessor, alone_bind,
    alone_findNextAvailableSuccessor henv]
  refine bind_congr ?_
  intro found
  cases found with
  | none => rfl
  | some newSuccessor => simp only [alone_bind, alone_write, alone_updateSuccessorList henv]

/-- The branch of `stabilize` for a successor that answers. -/
theorem alone_notifySuccessor (successor : NodeInfo) (response : DhtMessage) :
    alone env (Concurrent.notifySuccessor successor response) =
      notifySuccessor env successor response := by
  -- A reply without a whole predecessor leaves the successor alone.
  have hrest : alone env (do
        let self ← Prog.read
        discard <| Concurrent.callNode self.successor.address
          (.notify self.info.id self.info.address self.info.apiAddress)
        Concurrent.updateSuccessorList) = (do
        let self ← env.safeLock
        discard <| env.callNode self.successor.address
          (.notify self.info.id self.info.address self.info.apiAddress)
        updateSuccessorList env) := by
    simp only [alone_bind, alone_read henv, alone_discard, alone_callNode,
      alone_updateSuccessorList henv]
  cases response with
  | predecessor xId xAddress xApiAddress =>
    cases xId with
    | none => exact hrest
    | some xId =>
      cases xAddress with
      | none => exact hrest
      | some xAddress =>
        cases xApiAddress with
        | none => exact hrest
        | some xApiAddress => exact (alone_bind _ _).trans (bind_congr fun _ => hrest)
  | _ => exact hrest

/-- `stabilize` alone. -/
theorem alone_stabilize : alone env Concurrent.stabilize = stabilize env := by
  simp only [Concurrent.stabilize, stabilize, alone_bind, alone_read henv, alone_ite, alone_write,
    alone_callNode]
  refine bind_congr ?_
  intro self
  split
  · rfl
  · refine bind_congr ?_
    intro r
    cases r with
    | none => exact alone_replaceSuccessor henv
    | some response => exact alone_notifySuccessor henv _ response

/-- `notify` alone. -/
theorem alone_notify (nPrime : NodeInfo) :
    alone env (Concurrent.notify nPrime) = notify env nPrime := by
  unfold Concurrent.notify notify
  rw [alone_bind, alone_read henv]
  funext w
  show alone env (if nPrime.id = (env.node w).info.id then _ else _) w =
    (if nPrime.id = (env.node w).info.id then _ else _ : NodeM σ Unit) w
  by_cases hid : nPrime.id = (env.node w).info.id
  · rw [if_pos hid, if_pos hid]
    rfl
  · rw [if_neg hid, if_neg hid, alone_atomic_bind]
    cases h : (env.node w).notifyUpdate nPrime with
    | none =>
      -- The section of a refused notification writes back what it has read.
      simp only [Option.getD_none, henv.setNode_node, Option.isSome_none, Bool.false_eq_true,
        if_false, alone_pure]
    | some updated =>
      -- The range of the transfer is read again after the update, and the update keeps the id.
      have hinfo : updated.info = (env.node w).info := by
        rw [(ChordNode.notifyUpdate_frame h).1]
      simp only [Option.getD_some, Option.isSome_some, if_true, alone_bind, alone_read henv,
        alone_forEachValue, alone_discard, alone_callNode]
      have hread : ∀ (f : ChordNode → NodeM σ Unit) (w' : σ),
          (env.safeLock >>= f) w' = f (env.node w') w' := fun _ _ => rfl
      rw [hread, henv.node_setNode, hinfo]
      rfl

/-- One request of the recovery. -/
theorem alone_recoverFrom (startRange endRange : NodeId) (node : NodeInfo) :
    alone env (Concurrent.recoverFrom startRange endRange node) =
      recoverFrom env startRange endRange node := by
  simp only [Concurrent.recoverFrom, recoverFrom, alone_bind, alone_read henv, alone_ite,
    alone_pure, alone_callNode]
  refine bind_congr ?_
  intro self
  split
  · rfl
  · refine bind_congr ?_
    intro r
    cases r with
    | none => rfl
    | some m =>
      cases m with
      | replicaData replicas => rfl
      | _ => rfl

/-- The recovery after a failure of the predecessor. -/
theorem alone_reconcile (failedPredecessor : NodeInfo) :
    alone env (Concurrent.reconcileDataAfterPredecessorFailure failedPredecessor) =
      reconcileDataAfterPredecessorFailure env failedPredecessor := by
  simp only [Concurrent.reconcileDataAfterPredecessorFailure,
    reconcileDataAfterPredecessorFailure, alone_bind, alone_read henv, alone_forM,
    alone_recoverFrom henv]
  rfl

/-- `check_predecessor` alone. -/
theorem alone_checkPredecessor :
    alone env Concurrent.checkPredecessor = checkPredecessor env := by
  simp only [Concurrent.checkPredecessor, checkPredecessor, alone_bind, alone_read henv]
  refine bind_congr ?_
  intro self
  cases self.predecessor with
  | none => rfl
  | some predecessor =>
    simp only [alone_bind, alone_callNode]
    refine bind_congr ?_
    intro r
    -- Everything but a pong clears the predecessor.
    have hclear : alone env (do
          Prog.write fun n => { n with predecessor := none }
          Concurrent.reconcileDataAfterPredecessorFailure predecessor) = (do
          env.safeUpdate fun n => { n with predecessor := none }
          reconcileDataAfterPredecessorFailure env predecessor) := by
      simp only [alone_bind, alone_write, alone_reconcile henv]
    cases r with
    | none => exact hclear
    | some m =>
      cases m with
      | pong => rfl
      | _ => exact hclear

/-- `handle_share_metrics` alone. -/
theorem alone_handleShareMetrics (incoming : NetworkMetrics) :
    alone env (Concurrent.handleShareMetrics incoming) = handleShareMetrics env incoming := by
  funext w
  have hlock : ∀ f : ChordNode → NodeM σ (Option NetworkMetrics),
      (env.safeLock >>= f) w = f (env.node w) w := fun _ => rfl
  unfold Concurrent.handleShareMetrics handleShareMetrics
  rw [alone_atomic_bind, hlock]
  dsimp only
  cases h : (env.node w).metrics with
  | none =>
    -- A poisoned lock stays poisoned: the section writes back what it has read.
    have hsame : ({ env.node w with
        metrics := (none : Option NetworkMetrics).bind fun metrics =>
          ChordNode.averageMetrics metrics incoming } : ChordNode) = env.node w := by
      rw [Option.bind_none, ← h]
    simp only [hsame, henv.setNode_node]
    rfl
  | some metrics => rfl

/-- A handler that runs alone answers as the handler that is not cut into sections. -/
theorem alone_handleConnection (message : DhtMessage) :
    alone env (Concurrent.handleConnection message) = handleConnection env message := by
  have hreply : ∀ {α : Type} {p : NodeProg α} {q : NodeM σ α} (f : α → Option DhtMessage),
      alone env p = q →
        alone env (do let a ← p; return f a) = (do let a ← q; return f a) := by
    intro α p q f h
    rw [alone_bind, h]
    rfl
  cases message with
  | findSuccessor id => exact hreply _ (alone_findSuccessor henv id)
  | findPredecessor id => exact hreply _ (alone_findPredecessor henv id)
  | getSuccessor => exact hreply _ (alone_read henv)
  | closestPrecedingNode id => exact hreply _ (alone_read henv)
  | store key value => exact hreply _ (alone_store henv key value)
  | retrieve key => exact hreply _ (alone_retrieve henv key)
  | getPredecessor => exact hreply _ (alone_read henv)
  | notify id address apiAddress => exact hreply _ (alone_notify henv _)
  | getDataRange start «end» => exact hreply _ (alone_read henv)
  | shareMetrics metrics => exact hreply _ (alone_handleShareMetrics henv metrics)
  | replicateData key values replicaId => rfl
  | requestReplicas keyRangeStart keyRangeEnd => exact hreply _ (alone_read henv)
  | ping | error | foundSuccessor | foundPredecessor | predecessor | retrieved
  | foundClosestPrecedingNode | pong | dataRange | metricsShared | replicationAck | replicaData =>
    rfl

end Operations

end TaceChat
