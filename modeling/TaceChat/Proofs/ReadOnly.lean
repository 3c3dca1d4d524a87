import TaceChat.Model.Concurrent

/-!
# The operations that only read

Lookups, replications and retrievals read the state of the node between their calls and never write
it. So whatever is proved of the sections of a node's tasks holds of theirs for free
(`Prog.Reads.spec`). Of the lookups, `LooksUp` also says what they ask other nodes.
-/

set_option autoImplicit false

namespace TaceChat

namespace Concurrent

open Prog

/-! ### Lookups -/

/-- What a lookup asks other nodes. -/
def IsLookup : DhtMessage → Prop
  | .closestPrecedingNode _ | .getSuccessor | .ping => True
  | _ => False

/-- The program reads, and asks what a lookup asks. -/
abbrev LooksUp {α : Type} (p : NodeProg α) : Prop := p.Queries fun m => IsLookup m.2

/-- The next node of the walk. -/
theorem looksUp_nextNode (id : NodeId) (nPrime : NodeInfo) : LooksUp (nextNode id nPrime) := by
  refine queries_read_bind ?_
  intro self
  split
  · trivial
  · refine queries_ask_bind trivial ?_
    intro r
    split
    · trivial
    · trivial

/-- The successor of a node of the walk. -/
theorem looksUp_successorOf (nPrime : NodeInfo) : LooksUp (successorOf nPrime) := by
  refine queries_read_bind ?_
  intro self
  split
  · trivial
  · refine queries_ask_bind trivial ?_
    intro r
    split
    · trivial
    · trivial

/-- The loop of `find_predecessor`, by induction on its retries. -/
theorem looksUp_findPredecessorLoop (id : NodeId) : ∀ (retries : ℕ) (nPrime successor : NodeInfo),
    LooksUp (findPredecessorLoop id retries nPrime successor) := by
  intro retries
  induction retries with
  | zero =>
    intro nPrime successor
    unfold findPredecessorLoop
    split
    · trivial
    · trivial
  | succ retries ih =>
    intro nPrime successor
    unfold findPredecessorLoop
    split
    · trivial
    · -- The state may change between the hops. Each of them reads it anew.
      refine (looksUp_nextNode id nPrime).bind ?_
      intro next
      cases next with
      | none => trivial
      | some next =>
        dsimp only
        split
        · trivial
        · refine (looksUp_successorOf next).bind ?_
          intro successor
          cases successor with
          | none => trivial
          | some successor => exact ih next successor

/-- `find_predecessor` is a lookup. -/
theorem looksUp_findPredecessor (id : NodeId) : LooksUp (findPredecessor id) := by
  refine queries_read_bind ?_
  intro self
  exact looksUp_findPredecessorLoop id _ _ _

/-- Pings only. -/
theorem looksUp_firstReachable (nodes : List NodeInfo) : LooksUp (firstReachable nodes) := by
  induction nodes with
  | nil => trivial
  | cons successor rest ih =>
    refine queries_read_bind ?_
    intro self
    split
    · exact ih
    · refine queries_ask_bind trivial ?_
      intro r
      split
      · trivial
      · exact ih

/-- `find_next_available_successor` is a lookup. -/
theorem looksUp_findNextAvailableSuccessor : LooksUp findNextAvailableSuccessor := by
  refine queries_read_bind ?_
  intro self
  exact looksUp_firstReachable _

/-- `find_successor` is a lookup. -/
theorem looksUp_findSuccessor (id : NodeId) : LooksUp (findSuccessor id) := by
  refine (looksUp_findPredecessor id).bind ?_
  intro predecessor
  refine queries_read_bind ?_
  intro self
  split
  · trivial
  · refine queries_ask_bind trivial ?_
    intro r
    split
    · trivial
    · refine looksUp_findNextAvailableSuccessor.bind ?_
      intro next
      cases next with
      | none => exact queries_read_bind fun _ => trivial
      | some next => trivial

/-- `find_successor_with_virtual_nodes` is a lookup. -/
theorem looksUp_findSuccessorWithVirtualNodes (key : NodeId) :
    LooksUp (findSuccessorWithVirtualNodes key) := by
  refine queries_read_bind ?_
  intro self
  split
  · trivial
  · exact looksUp_findSuccessor key

/-- `find_predecessor` writes nothing. -/
theorem reads_findPredecessor (id : NodeId) : (findPredecessor id).Reads :=
  (looksUp_findPredecessor id).reads

/-- `find_successor` writes nothing. -/
theorem reads_findSuccessor (id : NodeId) : (findSuccessor id).Reads :=
  (looksUp_findSuccessor id).reads

/-! ### Data -/

/-- The selection of the replicas writes nothing. -/
theorem reads_getReplicaNodes (key : NodeId) : (getReplicaNodes key).Reads := by
  refine (looksUp_findSuccessorWithVirtualNodes key).reads.bind ?_
  intro primary
  exact reads_read_bind fun _ => reads_read_bind fun _ => reads_read_bind fun _ => trivial

/-- A replication request writes nothing at the node that sends it. -/
theorem reads_replicateTo (key : NodeId) (values : List Value) (i : ℕ) (node : NodeInfo) :
    (replicateTo key values i node).Reads := by
  refine reads_read_bind ?_
  intro self
  split
  · trivial
  · exact reads_ask_bind fun _ => trivial

/-- Nor does the whole replication. -/
theorem reads_replicateData (key : NodeId) (values : List Value) :
    (replicateData key values).Reads := by
  refine (reads_getReplicaNodes key).bind ?_
  intro replicaNodes
  exact Reads.forM fun p _ => reads_replicateTo key values p.2 p.1

/-- A node that asks its replicas keeps nothing of what they answer. -/
theorem reads_tryReplicas (key : NodeId) (nodes : List NodeInfo) :
    (tryReplicas key nodes).Reads := by
  induction nodes with
  | nil => trivial
  | cons node rest ih =>
    refine reads_read_bind ?_
    intro self
    split
    · exact ih
    · refine reads_ask_bind ?_
      intro r
      split
      · trivial
      · exact ih

/-- `retrieve` writes nothing. -/
theorem reads_retrieve (key : NodeId) : (retrieve key).Reads := by
  refine reads_read_bind ?_
  intro self
  split
  · trivial
  · refine (reads_getReplicaNodes key).bind ?_
    intro replicaNodes
    exact reads_read_bind fun self => reads_tryReplicas key _

end Concurrent

end TaceChat
