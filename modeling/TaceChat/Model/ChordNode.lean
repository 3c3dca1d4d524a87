import Mathlib.Data.List.AList
import Mathlib.Data.List.Destutter
import Mathlib.Data.List.Sort
import TaceChat.Model.Message

/-!
# The state of a node and what it computes locally

`ChordNode` holds what the source keeps behind its mutexes: the successor, the successor list,
the predecessor, the finger table, the data, the virtual nodes, the recorded loads and the
metrics. The functions of this module read or write that state and call no other node: what the
source does between two calls, under its locks.

`sha1` is a parameter wherever an id is computed from a string.
-/

set_option autoImplicit false

namespace TaceChat

/-- Number of bits in the Chord id space. -/
def M : ℕ := 160

/-- Number of successors to maintain for fault tolerance. -/
def successorListSize : ℕ := 3

/-- Number of replicas for each data item. -/
def replicationFactor : ℕ := 3

/-- Number of virtual nodes per physical node. -/
def virtualNodesPerNode : ℕ := 32

/-- `HashMap<NodeId, Vec<Vec<u8>>>`. The entries are in the map's iteration order. -/
abbrev DataMap := AList fun _ : NodeId => List Value

/-- The state of a node. Each field is behind a mutex of its own. -/
structure ChordNode where
  info : NodeInfo
  successor : NodeInfo
  successorList : List NodeInfo
  predecessor : Option NodeInfo
  fingerTable : List NodeInfo
  data : DataMap
  virtualNodes : List NodeId
  nodeLoads : NodeId → Option ℚ
  /-- `none` when a panic has poisoned the mutex. -/
  metrics : Option NetworkMetrics

/-- The order of the ids. Byte strings of one length compare as the numbers they spell. -/
def idLe (a b : NodeInfo) : Prop := nodeIdToBiguint a.id ≤ nodeIdToBiguint b.id

/-- Ids can be compared. -/
instance : DecidableRel idLe := fun a b =>
  inferInstanceAs (Decidable (nodeIdToBiguint a.id ≤ nodeIdToBiguint b.id))

/-- `sort_by_key(|n| n.id)` and then `dedup_by_key(|n| n.id)`. -/
def sortDedupById (nodes : List NodeInfo) : List NodeInfo :=
  (nodes.insertionSort idLe).destutter fun a b => a.id ≠ b.id

namespace ChordNode

/-- The values under a key, none when the key is absent. -/
def valuesAt (self : ChordNode) (key : NodeId) : List Value := (self.data.lookup key).getD []

/-- `data.entry(key).or_default().extend(values)`. -/
def extendKey (self : ChordNode) (key : NodeId) (values : List Value) : ChordNode :=
  { self with data := self.data.insert key (self.valuesAt key ++ values) }

/-- The recorded load of a node, `default` when there is none. -/
def loadOf (self : ChordNode) (default : ℚ) (n : NodeInfo) : ℚ :=
  (self.nodeLoads n.id).getD default

/-- The order by recorded load, with 0 for a node without one. -/
def loadLe (self : ChordNode) (a b : NodeInfo) : Prop := self.loadOf 0 a ≤ self.loadOf 0 b

/-- Loads can be compared. -/
instance (self : ChordNode) : DecidableRel self.loadLe := fun a b =>
  inferInstanceAs (Decidable (self.loadOf 0 a ≤ self.loadOf 0 b))

/-- The node in the finger table that most immediately precedes `id`: the table is read from
its last entry to its first. -/
def closestPrecedingNode (self : ChordNode) (id : NodeId) : NodeInfo :=
  ((self.fingerTable.take M).reverse.find? fun finger =>
    isBetween finger.id self.info.id id).getD self.info

/-- The entries with a key in (start, end], and the entry of `end` itself. -/
def getDataRange (self : ChordNode) (start «end» : NodeId) : List (NodeId × List Value) :=
  (self.data.entries.filter fun e => isBetween e.1 start «end» || e.1 = «end»).map
    fun e => (e.1, e.2)

/-- The same range, for a node that recovers data. -/
def handleRequestReplicas (self : ChordNode) (start «end» : NodeId) :
    List (NodeId × List Value) :=
  (self.data.entries.filter fun e => isBetween e.1 start «end» || e.1 = «end»).map
    fun e => (e.1, e.2)

/-- What `notify` does under the predecessor lock. `none` when the notification is refused. -/
def notifyUpdate (self : ChordNode) (nPrime : NodeInfo) : Option ChordNode :=
  let shouldUpdate := match self.predecessor with
    | none => true
    | some pred => isBetween nPrime.id pred.id self.info.id
  if shouldUpdate then
    some { self with
      predecessor := some nPrime
      -- A node that was alone takes its first predecessor as its successor too.
      successor := if self.successor.id = self.info.id then nPrime else self.successor }
  else none

/-- The successor write of `stabilize`: `x`, the predecessor that the successor reported,
becomes the successor when it lies between the node and that successor. -/
def adoptSuccessor (self : ChordNode) (successor x : NodeInfo) : ChordNode :=
  if isBetween x.id self.info.id successor.id then { self with successor := x } else self

/-- `start_new_network`. -/
def startNewNetwork (self : ChordNode) : ChordNode :=
  { self with
    successor := self.info
    successorList := List.replicate successorListSize self.info
    predecessor := none }

/-- Every third finger, from the first. -/
def sampledFingers (self : ChordNode) (every : ℕ) : List NodeInfo :=
  (self.fingerTable.zipIdx.filter fun p => p.2 % every = 0).map Prod.fst

/-- The replica candidates besides the primary, from the successor list and every third finger:
without duplicates, without the node itself and the primary, the least loaded first. -/
def replicaCandidates (self : ChordNode) (primary : NodeInfo) : List NodeInfo :=
  let candidates := self.successorList ++ self.sampledFingers 3
  let others := (sortDedupById candidates).filter fun n => n.id ≠ self.info.id ∧ n.id ≠ primary.id
  others.insertionSort self.loadLe

/-- The nodes that might hold replicas: the successor list and every fourth finger, without
duplicates and the node itself. The source takes the range and does not use it. -/
def getReplicaNodesForRange (self : ChordNode) (_start _end : NodeId) : List NodeInfo :=
  let nodes := self.successorList ++ self.sampledFingers 4
  (sortDedupById nodes).filter fun n => n.id ≠ self.info.id

/-- `apply_bounds`: the new estimate, within a factor of 4 of the old one. -/
def applyBounds (oldEstimate newEstimate : ℚ) : ℚ :=
  let maxAllowed := oldEstimate * 4
  let minAllowed := oldEstimate / 4
  let raised := if newEstimate < minAllowed then minAllowed else newEstimate
  if maxAllowed < raised then maxAllowed else raised

/-- `apply_smoothing`, with the factor 0.1 for the new estimate. -/
def applySmoothing (oldEstimate newEstimate : ℚ) : ℚ :=
  (1 - 1 / 10) * oldEstimate + 1 / 10 * newEstimate

/-- What `handle_share_metrics` does to the locked metrics. `none` when the addition of the
latencies panics. -/
def averageMetrics (localMetrics incoming : NetworkMetrics) : Option NetworkMetrics := do
  let latency ← Duration.checkedAdd localMetrics.operationLatency incoming.operationLatency
  let newRawEstimate := (localMetrics.networkSizeEstimate + incoming.networkSizeEstimate) / 2
  let boundedEstimate := applyBounds localMetrics.networkSizeEstimate newRawEstimate
  return { localMetrics with
    nodeChurnRate := (localMetrics.nodeChurnRate + incoming.nodeChurnRate) / 2
    routingTableHealth := (localMetrics.routingTableHealth + incoming.routingTableHealth) / 2
    operationSuccessRate :=
      (localMetrics.operationSuccessRate + incoming.operationSuccessRate) / 2
    operationLatency := latency / 2
    messageTypeRatio := (localMetrics.messageTypeRatio + incoming.messageTypeRatio) / 2
    totalNetworkKeysEstimate :=
      (localMetrics.totalNetworkKeysEstimate + incoming.totalNetworkKeysEstimate) / 2
    networkSizeEstimate := applySmoothing localMetrics.networkSizeEstimate boundedEstimate }

/-! ### A new node -/

section New

variable (sha1 : List UInt8 → NodeId)

/-- `generate_node_id`. -/
def generateNodeId (address : String) : NodeId := sha1 address.toUTF8.toList

/-- `generate_virtual_nodes`, in the order of their ids. -/
def generateVirtualNodes (address : String) : List NodeId :=
  let virtualNodes := (List.range virtualNodesPerNode).map fun i =>
    sha1 (address ++ ":" ++ toString i).toUTF8.toList
  virtualNodes.insertionSort fun a b => nodeIdToBiguint a ≤ nodeIdToBiguint b

/-- `ChordNode::new`. -/
def new (address apiAddress : String) : ChordNode :=
  let info : NodeInfo := ⟨generateNodeId sha1 address, address, apiAddress⟩
  { info
    successor := info
    successorList := List.replicate successorListSize info
    predecessor := none
    fingerTable := List.replicate M info
    data := ∅
    virtualNodes := generateVirtualNodes sha1 address
    nodeLoads := fun _ => none
    metrics := some NetworkMetrics.default }

end New

end ChordNode

end TaceChat
