import TaceChat.Library.Sections
import TaceChat.Model.Load
import TaceChat.Model.Network

/-!
# The operations of a node among other tasks

A node runs many tasks at once: one for each inbound connection, one for its background loop, and
those of the public API. They share the state of the node, and each access to it is one section
under a lock. This module has the operations of `Lookup`, `Storage`, `Maintenance` and `Network` as
programs of such sections, section by section as the source takes its locks. It also has the
operations that only matter among others: the metrics exchange and the load balancing.

`NodeTask` is what the program of a node starts (`main.rs`, `api.rs`). What is drawn at random in
the source, and the counter of the open connections, are arguments of the tasks.
-/

set_option autoImplicit false

namespace TaceChat

/-- A program of a node. A request is an address and a message, and `none` is a failed call. -/
abbrev NodeProg (α : Type) : Type :=
  Prog ChordNode (String × DhtMessage) (Option DhtMessage) α

namespace Concurrent

open Prog

/-- Calls a node. -/
def callNode (address : String) (message : DhtMessage) : NodeProg (Option DhtMessage) :=
  ask (address, message)

/-! ### Lookups -/

/-- The node that answers `closest_preceding_node`: this node itself, or another one over the
network. -/
def nextNode (id : NodeId) (nPrime : NodeInfo) : NodeProg (Option NodeInfo) := do
  let self ← read
  if nPrime.id = self.info.id then
    return some (self.closestPrecedingNode id)
  else
    match ← callNode nPrime.address (.closestPrecedingNode id) with
    | some (.foundClosestPrecedingNode id address apiAddress) =>
      return some ⟨id, address, apiAddress⟩
    | _ => return none

/-- The successor of a node of the walk, read here or asked for over the network. -/
def successorOf (nPrime : NodeInfo) : NodeProg (Option NodeInfo) := do
  let self ← read
  if nPrime.id = self.info.id then
    return some self.successor
  else
    match ← callNode nPrime.address .getSuccessor with
    | some (.foundSuccessor id address apiAddress) => return some ⟨id, address, apiAddress⟩
    | _ => return none

/-- The loop of `find_predecessor` with the retries that are left. -/
def findPredecessorLoop (id : NodeId) : ℕ → NodeInfo → NodeInfo → NodeProg NodeInfo
  | retries, nPrime, currentSuccessor => do
    if isBetween id nPrime.id currentSuccessor.id then
      return nPrime
    else
      match retries with
      | 0 => return nPrime
      | retries + 1 =>
        match ← nextNode id nPrime with
        | none => return nPrime
        | some next =>
          if next.id = nPrime.id then
            return nPrime
          else
            match ← successorOf next with
            | none => return next
            | some successor => findPredecessorLoop id retries next successor

/-- `find_predecessor`. The walk starts at this node and its own successor. -/
def findPredecessor (id : NodeId) : NodeProg NodeInfo := do
  let self ← read
  findPredecessorLoop id maxRetries self.info self.successor

/-- The first node of the list, other than this one, that answers a ping. -/
def firstReachable : List NodeInfo → NodeProg (Option NodeInfo)
  | [] => return none
  | successor :: rest => do
    let self ← read
    if successor.id = self.info.id then
      firstReachable rest
    else
      match ← callNode successor.address .ping with
      | some .pong => return some successor
      | _ => firstReachable rest

/-- `find_next_available_successor`. -/
def findNextAvailableSuccessor : NodeProg (Option NodeInfo) := do
  let self ← read
  firstReachable self.successorList

/-- `find_successor`. When the found predecessor does not answer, the first reachable node of the
list is the result. -/
def findSuccessor (id : NodeId) : NodeProg NodeInfo := do
  let predecessor ← findPredecessor id
  let self ← read
  if predecessor.id = self.info.id then
    return self.successor
  else
    match ← callNode predecessor.address .getSuccessor with
    | some (.foundSuccessor id address apiAddress) => return ⟨id, address, apiAddress⟩
    | _ =>
      match ← findNextAvailableSuccessor with
      | some nextAvailable => return nextAvailable
      | none =>
        let self ← read
        return self.successor

/-- `find_successor_with_virtual_nodes`. A virtual node that covers the key comes before the
lookup. -/
def findSuccessorWithVirtualNodes (key : NodeId) : NodeProg NodeInfo := do
  let self ← read
  if self.virtualNodes.any fun vnodeId => isBetween key self.info.id vnodeId || key = vnodeId then
    return self.info
  else
    findSuccessor key

/-- One finger of `fix_fingers`. -/
def fixFingers (i : ℕ) : NodeProg Unit := do
  let self ← read
  let successor ← findSuccessor (addIdPowerOf2 self.info.id i)
  write fun n => { n with fingerTable := n.fingerTable.set i successor }

/-! ### Data -/

/-- The successor list, the finger table and the recorded loads are read one after the other. -/
def getReplicaNodes (key : NodeId) : NodeProg (List NodeInfo) := do
  let primary ← findSuccessorWithVirtualNodes key
  let successorList := (← read).successorList
  let fingerTable := (← read).fingerTable
  let self ← read
  return primary ::
    (({ self with successorList, fingerTable } : ChordNode).replicaCandidates primary).take
      (replicationFactor - 1)

/-- One replication request of `replicate_data`, whose reply is ignored. -/
def replicateTo (key : NodeId) (values : List Value) (i : ℕ) (node : NodeInfo) :
    NodeProg Unit := do
  let self ← read
  if node.id = self.info.id then
    return ()
  else
    discard <| callNode node.address (.replicateData key values (UInt8.ofNat (i + 1)))

/-- `replicate_data`. Each of the selected nodes gets a request with its number. -/
def replicateData (key : NodeId) (values : List Value) : NodeProg Unit := do
  let replicaNodes ← getReplicaNodes key
  forM replicaNodes.zipIdx fun p => replicateTo key values p.2 p.1

/-- `store`: the value is kept here, and then sent to the replicas. -/
def store (key : NodeId) (value : Value) : NodeProg Unit := do
  write fun n => n.extendKey key [value]
  replicateData key [value]

/-- `handle_replicate_data`: the values are appended, whatever is there. -/
def handleReplicateData (key : NodeId) (values : List Value) (_replicaId : UInt8) :
    NodeProg Bool := do
  write fun n => n.extendKey key values
  return true

/-- The loop of `retrieve_from_replicas` over the selected nodes. -/
def tryReplicas (key : NodeId) : List NodeInfo → NodeProg (Option (List Value))
  | [] => return none
  | node :: rest => do
    let self ← read
    if node.id = self.info.id then
      tryReplicas key rest
    else
      match ← callNode node.address (.retrieve key) with
      | some (.retrieved _ (some value)) => return some value
      | _ => tryReplicas key rest

/-- `retrieve_from_replicas`. The selected nodes are asked in the order of their loads. -/
def retrieveFromReplicas (key : NodeId) : NodeProg (Option (List Value)) := do
  let replicaNodes ← getReplicaNodes key
  let self ← read
  tryReplicas key (replicaNodes.insertionSort self.loadLe)

/-- `retrieve`. A local list, also an empty one, is the result. -/
def retrieve (key : NodeId) : NodeProg (Option (List Value)) := do
  let self ← read
  match self.data.lookup key with
  | some value => return some value
  | none => retrieveFromReplicas key

/-! ### Maintenance -/

/-- The two nested loops over received data. -/
def forEachValue (data : List (NodeId × List Value)) (act : NodeId → Value → NodeProg Unit) :
    NodeProg Unit :=
  forM data fun entry => forM entry.2 fun value => act entry.1 value

/-- What the bootstrap node answers to the lookup of a joining node. -/
def findJoinSuccessor (address : String) : NodeProg (Option NodeInfo) := do
  let self ← read
  match ← callNode address (.findSuccessor self.info.id) with
  | some (.foundSuccessor id address apiAddress) =>
    if id = self.info.id then return none else return some ⟨id, address, apiAddress⟩
  | _ => return none

/-- The data that a joining node asks its successor for. -/
def pullData (successorInfo : NodeInfo) : NodeProg Unit := do
  let self ← read
  match ← callNode successorInfo.address (.getDataRange self.info.id successorInfo.id) with
  | some (.dataRange data) => forEachValue data fun key value => store key value
  | _ => return ()

/-- The three writes of `start_new_network` are under three locks. -/
def startNewNetwork : NodeProg Unit := do
  write fun n => { n with successor := n.info }
  write fun n => { n with successorList := List.replicate successorListSize n.info }
  write fun n => { n with predecessor := none }

/-- `join`. Without a bootstrap node it starts a network of its own. -/
def join (bootstrapAddress : Option String) : NodeProg Unit := do
  match bootstrapAddress with
  | none => startNewNetwork
  | some address =>
    match ← findJoinSuccessor address with
    | none => return ()
    | some successorInfo => do
      write fun n => { n with successor := successorInfo }
      pullData successorInfo

/-- The walk of `update_successor_list` from a node, with the entries that are still to be
filled. -/
def walkSuccessors : ℕ → NodeInfo → NodeProg (List NodeInfo)
  | 0, _ => return []
  | k + 1, current => do
    let self ← read
    if current.id = self.info.id then
      return []
    else
      match ← callNode current.address .getSuccessor with
      | some (.foundSuccessor id address apiAddress) =>
        let next : NodeInfo := ⟨id, address, apiAddress⟩
        if next.id = self.info.id then
          return []
        else do
          let rest ← walkSuccessors k next
          return next :: rest
      | _ => return []

/-- `update_successor_list`. -/
def updateSuccessorList : NodeProg Unit := do
  let self ← read
  let rest ← walkSuccessors (successorListSize - 1) self.successor
  write fun n => { n with successorList := fillSuccessorList self.successor rest }

/-- The branch of `stabilize` for a successor that does not answer. -/
def replaceSuccessor : NodeProg Unit := do
  match ← findNextAvailableSuccessor with
  | some newSuccessor => do
    write fun n => { n with successor := newSuccessor }
    updateSuccessorList
  | none => return ()

/-- The rest of `stabilize` once the successor has answered. -/
def notifySuccessor (successor : NodeInfo) (response : DhtMessage) : NodeProg Unit := do
  match response with
  | .predecessor (some xId) (some xAddress) (some xApiAddress) =>
    write fun n => n.adoptSuccessor successor ⟨xId, xAddress, xApiAddress⟩
  | _ => pure ()
  let self ← read
  discard <| callNode self.successor.address
    (.notify self.info.id self.info.address self.info.apiAddress)
  updateSuccessorList

/-- `stabilize`. A node that is its own successor asks nobody. -/
def stabilize : NodeProg Unit := do
  let self ← read
  if self.info.id = self.successor.id then
    write fun n => { n with predecessor := none }
  else
    match ← callNode self.successor.address .getPredecessor with
    | none => replaceSuccessor
    | some response => notifySuccessor self.successor response

/-- The predecessor is compared and written in one section. The data is read in another. -/
def notify (nPrime : NodeInfo) : NodeProg Unit := do
  let self ← read
  if nPrime.id = self.info.id then
    return ()
  else
    let before ← atomic fun n => (n.notifyUpdate nPrime).getD n
    if (before.notifyUpdate nPrime).isSome then do
      let after ← read
      forEachValue (after.getDataRange nPrime.id after.info.id) fun key value =>
        discard <| callNode nPrime.address (.store key value)
    else
      return ()

/-- What one node is asked for after a failure of the predecessor. -/
def recoverFrom (startRange endRange : NodeId) (node : NodeInfo) : NodeProg Unit := do
  let self ← read
  if node.id = self.info.id then
    return ()
  else
    match ← callNode node.address (.requestReplicas startRange endRange) with
    | some (.replicaData replicas) => write fun n => n.recover replicas
    | _ => return ()

/-- `reconcile_data_after_predecessor_failure`. The range starts at the predecessor as it is read
then. -/
def reconcileDataAfterPredecessorFailure (failedPredecessor : NodeInfo) : NodeProg Unit := do
  let ourPred := (← read).predecessor.map NodeInfo.id
  let startRange := ourPred.getD failedPredecessor.id
  let successorList := (← read).successorList
  let self ← read
  let endRange := self.info.id
  forM (({ self with successorList } : ChordNode).getReplicaNodesForRange startRange endRange)
    (recoverFrom startRange endRange)

/-- `check_predecessor`. A predecessor that does not answer is cleared before the data is
recovered. -/
def checkPredecessor : NodeProg Unit := do
  let self ← read
  match self.predecessor with
  | none => return ()
  | some predecessor =>
    match ← callNode predecessor.address .ping with
    | some .pong => return ()
    | _ => do
      write fun n => { n with predecessor := none }
      reconcileDataAfterPredecessorFailure predecessor

/-! ### Metrics and load -/

/-- The incoming metrics are averaged into the own ones in one section. -/
def handleShareMetrics (incoming : NetworkMetrics) : NodeProg (Option NetworkMetrics) := do
  let self ← atomic fun n =>
    { n with metrics := n.metrics.bind fun metrics => ChordNode.averageMetrics metrics incoming }
  match self.metrics with
  | none => return some incoming
  | some metrics => return ChordNode.averageMetrics metrics incoming

/-- The lock of the metrics is held from the first of these sections to the last. -/
def updateLocalMetrics : NodeProg Unit := do
  let routingTableHealth := (← read).routingTableHealth
  let localKeyCount := (← read).data.keys.length
  let localSizeEstimate := (← read).calculateLocalNetworkSizeEstimate
  write fun n =>
    { n with
      metrics := n.metrics.map
        (ChordNode.refreshMetrics routingTableHealth localKeyCount localSizeEstimate) }

/-- Exchanges the metrics with the candidate of the number `i`. -/
def shareAndUpdateMetrics (i : ℕ) : NodeProg Unit := do
  updateLocalMetrics
  let successor := (← read).successor
  let self ← read
  if successor.id = self.info.id then
    return ()
  else
    match (ChordNode.sharingCandidates self.info successor self.fingerTable)[i]? with
    | none => return ()
    | some randomNode =>
      match (← read).metrics with
      | none => return ()
      | some localMetrics =>
        match ← callNode randomNode.address (.shareMetrics localMetrics) with
        | some (.metricsShared metrics) => discard <| handleShareMetrics metrics
        | _ => return ()

/-- `calculate_current_load` with the number of open connections. -/
def calculateCurrentLoad (connections : ℕ) : NodeProg ℚ := do
  let dataCount := (← read).data.keys.length
  let metricsLoad := (← read).metricsLoad
  return ChordNode.currentLoad dataCount connections metricsLoad

/-- Takes the key out of the data and sends its values to the target. A value that cannot be sent is
put back. -/
def migrateKeyToNode (key : NodeId) (targetNode : NodeInfo) : NodeProg Unit := do
  let self ← atomic fun n => n.removeKey key
  match self.data.lookup key with
  | none => return ()
  | some values =>
    forM values fun value => do
      match ← callNode targetNode.address (.store key value) with
      | some _ => return ()
      | none => write fun n => n.extendKey key [value]

/-- Migrates a key when one of its replica nodes has much less load. -/
def rebalanceKey (key : NodeId) : NodeProg Unit := do
  let replicaNodes ← getReplicaNodes key
  let self ← read
  match self.migrationTarget replicaNodes with
  | none => return ()
  | some targetNode => migrateKeyToNode key targetNode

/-- Considers the first ten keys of the data. -/
def rebalanceData : NodeProg Unit := do
  let keysToMigrate := (← read).data.keys.take 10
  forM keysToMigrate rebalanceKey

/-- The two numbers are the open connections when the load is calculated and when it is
published. -/
def checkAndRebalance (connections connections' : ℕ) : NodeProg Unit := do
  let currentLoad ← calculateCurrentLoad connections
  write fun n => n.updateNodeLoad n.info.id currentLoad
  write fun n => n.publishLoad currentLoad connections'
  if loadBalanceThreshold < currentLoad then
    rebalanceData
  else
    return ()

/-! ### Tasks -/

/-- The reply of a node to one request. -/
def handleConnection (message : DhtMessage) : NodeProg (Option DhtMessage) := do
  match message with
  | .findSuccessor id =>
    let successor ← findSuccessor id
    return some (.foundSuccessor successor.id successor.address successor.apiAddress)
  | .findPredecessor id =>
    let predecessor ← findPredecessor id
    return some (.foundPredecessor predecessor.id predecessor.address predecessor.apiAddress)
  | .getSuccessor =>
    let successor := (← read).successor
    return some (.foundSuccessor successor.id successor.address successor.apiAddress)
  | .closestPrecedingNode id =>
    let cpn := (← read).closestPrecedingNode id
    return some (.foundClosestPrecedingNode cpn.id cpn.address cpn.apiAddress)
  | .store key value =>
    store key value
    return some .pong
  | .retrieve key =>
    let value ← retrieve key
    return some (.retrieved key value)
  | .getPredecessor =>
    let predecessor := (← read).predecessor
    return some (.predecessor (predecessor.map NodeInfo.id) (predecessor.map NodeInfo.address)
      (predecessor.map NodeInfo.apiAddress))
  | .notify id address apiAddress =>
    notify ⟨id, address, apiAddress⟩
    return some .pong
  | .ping => return some .pong
  | .getDataRange start «end» => return some (.dataRange ((← read).getDataRange start «end»))
  | .shareMetrics metrics => return (← handleShareMetrics metrics).map .metricsShared
  | .replicateData key values replicaId =>
    let success ← handleReplicateData key values replicaId
    return some (.replicationAck key success)
  | .requestReplicas keyRangeStart keyRangeEnd =>
    return some (.replicaData ((← read).handleRequestReplicas keyRangeStart keyRangeEnd))
  | _ => return some (.error "Unsupported message type")

/-- The end of `message_handler`. -/
def storeAtResponsible (key : NodeId) (serialized : Value) : NodeProg Unit := do
  let responsibleNode ← findSuccessor key
  let self ← read
  if responsibleNode.id = self.info.id then
    store key serialized
  else
    discard <| callNode responsibleNode.address (.store key serialized)

/-- The end of `poll_handler`. -/
def retrieveAtResponsible (key : NodeId) : NodeProg Unit := do
  let responsibleNode ← findSuccessor key
  let self ← read
  if responsibleNode.id = self.info.id then
    discard <| retrieve key
  else
    discard <| callNode responsibleNode.address (.retrieve key)

end Concurrent

/-- The tasks that the program of a node starts. -/
inductive NodeTask
  /-- A connection with a message. -/
  | connection (message : DhtMessage)
  | join (bootstrapAddress : Option String)
  | stabilize
  | fixFingers (i : ℕ)
  | checkPredecessor
  | shareAndUpdateMetrics (i : ℕ)
  | checkAndRebalance (connections connections' : ℕ)
  /-- A message that was posted to the public API of this node. -/
  | postMessage (key : NodeId) (serialized : Value)
  /-- A poll at the public API of this node. -/
  | pollMessages (key : NodeId)

/-- The program of a task. -/
def NodeTask.prog : NodeTask → NodeProg Unit
  | .connection message => discard <| Concurrent.handleConnection message
  | .join bootstrapAddress => Concurrent.join bootstrapAddress
  | .stabilize => Concurrent.stabilize
  | .fixFingers i => Concurrent.fixFingers i
  | .checkPredecessor => Concurrent.checkPredecessor
  | .shareAndUpdateMetrics i => Concurrent.shareAndUpdateMetrics i
  | .checkAndRebalance connections connections' =>
    Concurrent.checkAndRebalance connections connections'
  | .postMessage key serialized => Concurrent.storeAtResponsible key serialized
  | .pollMessages key => Concurrent.retrieveAtResponsible key

end TaceChat
