import TaceChat.Library.LockOrder

/-!
# The mutexes of a node

`Mutex` names the mutexes of `ChordNode`, and each operation of the source has its `LockProgram`
here: where its guards live, which guards it takes while they do, and which of its branches take a
guard at all. Calls to other nodes happen between guards, and the handler that such a call starts is
a task of its own.

`Operation` lists what runs at a node: the handlers of the messages, `join`, and the steps of the
main loop.
-/

set_option autoImplicit false

namespace TaceChat

/-- The mutexes of `ChordNode`. -/
inductive Mutex
  | successor
  | successorList
  | predecessor
  | fingerTable
  | data
  | virtualNodes
  | nodeLoads
  | metrics
  deriving DecidableEq

/-- The lock program of an operation of a node. -/
abbrev Locks : Type := LockProgram Mutex

namespace Locks

open LockProgram

/-! ### Lookups -/

/-- The fingers are read under one guard. -/
def closestPrecedingNode : Locks := take .fingerTable

/-- Each round asks this node's fingers or another node's, and then this node's successor or another
node's. -/
def findPredecessor : Locks :=
  .seq (take .successor) (.loop (.seq (maybe closestPrecedingNode) (maybe (take .successor))))

/-- The list is cloned under its guard, and the pings come after it. -/
def findNextAvailableSuccessor : Locks := take .successorList

/-- The predecessor of the id is looked up first, and a successor that does not answer is
replaced. -/
def findSuccessor : Locks :=
  .seq findPredecessor <| .choice (take .successor) <| maybe <|
    .seq findNextAvailableSuccessor (maybe (take .successor))

/-- The virtual nodes are looked through before the lookup. -/
def findSuccessorWithVirtualNodes : Locks := .seq (take .virtualNodes) (maybe findSuccessor)

/-! ### Storage -/

/-- The candidates come from the list, from the fingers and from the loads, one guard after
another. -/
def getReplicaNodes : Locks :=
  .seq findSuccessorWithVirtualNodes <| .seq (take .successorList) <|
    .seq (take .fingerTable) (take .nodeLoads)

/-- Only the selection of the nodes takes guards. -/
def replicateData : Locks := getReplicaNodes

/-- The guard of the data ends before the replication starts. -/
def store : Locks := .seq (take .data) replicateData

/-- The replicas are appended under one guard. -/
def handleReplicateData : Locks := take .data

/-- The replicas are collected under one guard. -/
def handleRequestReplicas : Locks := take .data

/-- The loads are read again to sort the selected nodes. -/
def retrieveFromReplicas : Locks := .seq getReplicaNodes (take .nodeLoads)

/-- The replicas are asked once the guard of the data has ended. -/
def retrieve : Locks := .seq (take .data) (maybe retrieveFromReplicas)

/-- The range is collected under one guard. -/
def getDataRange : Locks := take .data

/-! ### The ring -/

/-- The pointers of the first node are set one after another. -/
def startNewNetwork : Locks :=
  .seq (take .successor) (.seq (take .successorList) (take .predecessor))

/-- A node that joins stores what it receives, value by value. -/
def join : Locks := .choice startNewNetwork (maybe (.seq (take .successor) (.loop store)))

/-- The walk is between the two guards. -/
def updateSuccessorList : Locks := .seq (take .successor) (take .successorList)

/-- The branches of `stabilize`. -/
def stabilize : Locks :=
  .seq (take .successor) <| .choice
    -- The node is alone.
    (take .predecessor) <| .choice
    -- The successor does not answer.
    (.seq findNextAvailableSuccessor (maybe (.seq (take .successor) updateSuccessorList)))
    -- The successor answers.
    (.seq (maybe (take .successor)) (.seq (take .successor) updateSuccessorList))

/-- The handler of a notification. When it updates the predecessor, it looks at the successor under
the guard of the predecessor. -/
def notify : Bool → Locks
  | true => .seq (.hold .predecessor (take .successor)) getDataRange
  | false => maybe (take .predecessor)

/-- The lookup of a finger comes before the table is written. -/
def fixFingers : Locks := .seq findSuccessor (take .fingerTable)

/-- The list and the fingers are read one after another. -/
def getReplicaNodesForRange : Locks := .seq (take .successorList) (take .fingerTable)

/-- Each entry that is recovered takes the guard of the data for itself. -/
def reconcileDataAfterPredecessorFailure : Locks :=
  .seq (take .predecessor) <| .seq getReplicaNodesForRange (.loop (maybe (take .data)))

/-- The predecessor is read, cleared after a failed ping, and read again for the range. -/
def checkPredecessor : Locks :=
  .seq (take .predecessor) <| maybe <|
    .seq (take .predecessor) reconcileDataAfterPredecessorFailure

/-- The debug output of the main loop. Both guards live to its end. -/
def debugRingState : Locks := .hold .successor (take .predecessor)

/-! ### Metrics and load -/

/-- The estimate looks at the successor. -/
def calculateLocalNetworkSizeEstimate : Locks := take .successor

/-- The guard of the metrics lives while the node looks at its fingers, its data and its
successor. -/
def updateLocalMetrics : Locks :=
  .hold .metrics <| .seq (take .fingerTable) <| .seq (take .data)
    calculateLocalNetworkSizeEstimate

/-- The averages are written under one guard. -/
def handleShareMetrics : Locks := take .metrics

/-- The guards around the exchange with one finger. -/
def shareAndUpdateMetrics : Locks :=
  .seq updateLocalMetrics <| .seq (take .successor) <| .seq (take .fingerTable) <|
    maybe (.seq (take .metrics) (maybe handleShareMetrics))

/-- A load is recorded under one guard. -/
def updateNodeLoad : Locks := take .nodeLoads

/-- The keys are counted first, and the metrics are read after that. -/
def calculateCurrentLoad : Locks := .seq (take .data) (take .metrics)

/-- The values are removed under one guard, and put back under another. -/
def migrateKeyToNode : Locks := .seq (take .data) (.loop (maybe (take .data)))

/-- The keys are collected first. Each of them looks up its nodes and their loads. -/
def rebalanceData : Locks :=
  .seq (take .data) <| .loop <|
    .seq getReplicaNodes (.seq (take .nodeLoads) (maybe migrateKeyToNode))

/-- The load is computed, recorded and published before the balancing. -/
def checkAndRebalance : Locks :=
  .seq calculateCurrentLoad <| .seq updateNodeLoad <| .seq (take .metrics) (maybe rebalanceData)

end Locks

/-- What runs at a node. -/
inductive Operation
  -- The handlers of the messages.
  | findSuccessor
  | findPredecessor
  | getSuccessor
  | closestPrecedingNode
  | store
  | retrieve
  | getPredecessor
  /-- A notification that updates the predecessor, or one that does not. -/
  | notify (updates : Bool)
  | ping
  | getDataRange
  | shareMetrics
  | replicateData
  | requestReplicas
  | unsupported
  -- The start and the main loop.
  | join
  | stabilize
  | fixFingers
  | checkPredecessor
  | debugRingState
  | shareAndUpdateMetrics
  | checkAndRebalance

/-- The mutexes of an operation. -/
def Operation.locks : Operation → Locks
  | .findSuccessor => Locks.findSuccessor
  | .findPredecessor => Locks.findPredecessor
  | .getSuccessor => .take .successor
  | .closestPrecedingNode => Locks.closestPrecedingNode
  | .store => Locks.store
  | .retrieve => Locks.retrieve
  | .getPredecessor => .take .predecessor
  | .notify updates => Locks.notify updates
  | .ping => .skip
  | .getDataRange => Locks.getDataRange
  | .shareMetrics => Locks.handleShareMetrics
  | .replicateData => Locks.handleReplicateData
  | .requestReplicas => Locks.handleRequestReplicas
  | .unsupported => .skip
  | .join => Locks.join
  | .stabilize => Locks.stabilize
  | .fixFingers => Locks.fixFingers
  | .checkPredecessor => Locks.checkPredecessor
  | .debugRingState => Locks.debugRingState
  | .shareAndUpdateMetrics => Locks.shareAndUpdateMetrics
  | .checkAndRebalance => Locks.checkAndRebalance

end TaceChat
