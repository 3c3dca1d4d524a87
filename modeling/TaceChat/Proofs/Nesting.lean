import TaceChat.Proofs.Calls

/-!
# More nesting does not change a result

`Network.call` carries the number of nested calls it may still open. A call that returns within
some nesting returns the same within more (`call_extends`), so whether an operation returns at all,
and what it returns, does not depend on a particular number.

The operations are compared in an environment `env` and in the one with other calls, `env.within
call`, one lemma for each operation.
-/

set_option autoImplicit false

namespace TaceChat

variable {σ : Type}

/-- The same node with other calls. -/
def NodeEnv.within (env : NodeEnv σ) (call : String → DhtMessage → NodeM σ (Option DhtMessage)) :
    NodeEnv σ :=
  { env with callNode := call }

section Operations

variable {env : NodeEnv σ} {call : String → DhtMessage → NodeM σ (Option DhtMessage)}
  (h : ∀ address m, Extends (env.callNode address m) (call address m))

include h

/-! ### Lookups -/

/-- The next node of the walk. -/
theorem nextNode_extends (id : NodeId) (nPrime : NodeInfo) :
    Extends (nextNode env id nPrime) (nextNode (env.within call) id nPrime) := by
  refine Extends.bind (.refl _) fun self => .ite (.refl _) ?_
  exact (h _ _).bind fun _ => .refl _

/-- The successor of a node of the walk. -/
theorem successorOf_extends (nPrime : NodeInfo) :
    Extends (successorOf env nPrime) (successorOf (env.within call) nPrime) := by
  refine Extends.bind (.refl _) fun self => .ite (.refl _) ?_
  exact (h _ _).bind fun _ => .refl _

/-- The loop of `find_predecessor`, by induction on its retries. -/
theorem findPredecessorLoop_extends (id : NodeId) (retries : ℕ) (nPrime successor : NodeInfo) :
    Extends (findPredecessorLoop env id retries nPrime successor)
      (findPredecessorLoop (env.within call) id retries nPrime successor) := by
  induction retries generalizing nPrime successor with
  | zero =>
    unfold findPredecessorLoop
    exact .refl _
  | succ retries ih =>
    unfold findPredecessorLoop
    refine .ite (.refl _) ((nextNode_extends h id nPrime).bind fun next => ?_)
    cases next with
    | none => exact .refl _
    | some next =>
      refine .ite (.refl _) ((successorOf_extends h next).bind fun successor => ?_)
      cases successor with
      | none => exact .refl _
      | some successor => exact ih next successor

/-- `find_predecessor` within other calls. -/
theorem findPredecessor_extends (id : NodeId) :
    Extends (findPredecessor env id) (findPredecessor (env.within call) id) :=
  Extends.bind (.refl _) fun _ => findPredecessorLoop_extends h id maxRetries _ _

/-- The search for a reachable successor, by induction on the list. -/
theorem firstReachable_extends (l : List NodeInfo) :
    Extends (firstReachable env l) (firstReachable (env.within call) l) := by
  induction l with
  | nil => exact .refl _
  | cons successor rest ih =>
    unfold firstReachable
    refine Extends.bind (.refl _) fun self => .ite ih ((h _ _).bind fun r => ?_)
    split
    · exact .refl _
    · exact ih

/-- `find_next_available_successor` within other calls. -/
theorem findNextAvailableSuccessor_extends :
    Extends (findNextAvailableSuccessor env) (findNextAvailableSuccessor (env.within call)) :=
  Extends.bind (.refl _) fun _ => firstReachable_extends h _

/-- `find_successor` within other calls. -/
theorem findSuccessor_extends (id : NodeId) :
    Extends (findSuccessor env id) (findSuccessor (env.within call) id) := by
  refine (findPredecessor_extends h id).bind fun predecessor => ?_
  refine Extends.bind (.refl _) fun self => .ite (.refl _) ((h _ _).bind fun r => ?_)
  split
  · exact .refl _
  · refine (findNextAvailableSuccessor_extends h).bind fun next => ?_
    exact .refl _

/-- The virtual nodes are read at the node itself. -/
theorem findSuccessorWithVirtualNodes_extends (key : NodeId) :
    Extends (findSuccessorWithVirtualNodes env key)
      (findSuccessorWithVirtualNodes (env.within call) key) :=
  Extends.bind (.refl _) fun _ => .ite (.refl _) (findSuccessor_extends h key)

/-! ### Storing and retrieving -/

/-- Only the primary node is looked up with calls. -/
theorem getReplicaNodes_extends (key : NodeId) :
    Extends (getReplicaNodes env key) (getReplicaNodes (env.within call) key) :=
  (findSuccessorWithVirtualNodes_extends h key).bind fun _ => .refl _

/-- `store` within other calls. -/
theorem store_extends (key : NodeId) (value : Value) :
    Extends (store env key value) (store (env.within call) key value) := by
  refine Extends.bind (.refl _) fun _ => (getReplicaNodes_extends h key).bind fun nodes => ?_
  refine .forM fun p => Extends.bind (.refl _) fun self => .ite (.refl _) ?_
  exact (h _ _).discard

/-- The loop of `retrieve_from_replicas`, by induction on the nodes. -/
theorem tryReplicas_extends (key : NodeId) (l : List NodeInfo) :
    Extends (tryReplicas env key l) (tryReplicas (env.within call) key l) := by
  induction l with
  | nil => exact .refl _
  | cons node rest ih =>
    unfold tryReplicas
    refine Extends.bind (.refl _) fun self => .ite ih ((h _ _).bind fun r => ?_)
    split
    · exact .refl _
    · exact ih

/-- `retrieve` within other calls. -/
theorem retrieve_extends (key : NodeId) :
    Extends (retrieve env key) (retrieve (env.within call) key) := by
  refine Extends.bind (.refl _) fun self => ?_
  cases self.data.lookup key with
  | some value => exact .refl _
  | none =>
    refine (getReplicaNodes_extends h key).bind fun nodes => ?_
    exact Extends.bind (.refl _) fun self => tryReplicas_extends h key _

/-! ### Requests -/

/-- `notify` within other calls. -/
theorem notify_extends (nPrime : NodeInfo) :
    Extends (notify env nPrime) (notify (env.within call) nPrime) := by
  refine Extends.bind (.refl _) fun self => .ite (.refl _) ?_
  cases self.notifyUpdate nPrime with
  | none => exact .refl _
  | some updated =>
    refine Extends.bind (.refl _) fun _ => .forM fun entry => .forM fun value => ?_
    exact (h _ _).discard

/-- The handler of a message, message by message. -/
theorem handleConnection_extends (m : DhtMessage) :
    Extends (handleConnection env m) (handleConnection (env.within call) m) := by
  cases m with
  | findSuccessor id => exact (findSuccessor_extends h id).bind fun _ => .refl _
  | findPredecessor id => exact (findPredecessor_extends h id).bind fun _ => .refl _
  | store key value => exact (store_extends h key value).bind fun _ => .refl _
  | retrieve key => exact (retrieve_extends h key).bind fun _ => .refl _
  | notify id address apiAddress => exact (notify_extends h _).bind fun _ => .refl _
  | _ => exact .refl _

end Operations

namespace Network

variable {φ : Type} {medium : Medium φ}

/-- One more level of nesting keeps the result of a call, by induction on the nesting. -/
theorem call_succ_extends (depth : ℕ) (address : String) (m : DhtMessage) :
    Extends (call medium depth address m) (call medium (depth + 1) address m) := by
  induction depth generalizing address m with
  | zero => exact fun _ _ hrun => by cases hrun
  | succ depth ih =>
    refine Extends.bind (.refl _) fun net => Extends.bind (.refl _) fun _ => .ite (.refl _) ?_
    exact (handleConnection_extends ih m).bind fun _ => .refl _

/-- A call that returns within some nesting returns the same within more. -/
theorem call_extends {depth depth' : ℕ} (hle : depth ≤ depth') (address : String)
    (m : DhtMessage) : Extends (call medium depth address m) (call medium depth' address m) := by
  induction hle with
  | refl => exact .refl _
  | step _ ih => exact fun s r hrun => call_succ_extends _ _ _ s r (ih s r hrun)

/-- A read that returns within some nesting returns the same within more. -/
theorem retrieve_env_extends {depth depth' : ℕ} (hle : depth ≤ depth') (address : String)
    (key : NodeId) :
    Extends (retrieve (env medium depth address) key) (retrieve (env medium depth' address) key) :=
  retrieve_extends (call_extends hle) key

end Network

end TaceChat
