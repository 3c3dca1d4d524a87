import Mathlib.Algebra.Order.Field.Rat
import Mathlib.Data.List.MinMax
import TaceChat.Model.ChordNode

/-!
# Load and metrics of a node

What `check_and_rebalance` and `update_local_metrics` compute from the state of a node. The `f32`
and `f64` values of the source are exact rationals here. The number of open connections is an atomic
counter of its own in the source, and an argument here.
-/

set_option autoImplicit false

namespace TaceChat

/-- `MAX_CONNECTIONS`. -/
def maxConnections : ℕ := 100

/-- `LOAD_BALANCE_THRESHOLD`. -/
def loadBalanceThreshold : ℚ := 8 / 10

namespace ChordNode

/-- `update_node_load`. -/
def updateNodeLoad (self : ChordNode) (nodeId : NodeId) (load : ℚ) : ChordNode :=
  { self with nodeLoads := fun id => if id = nodeId then some load else self.nodeLoads id }

/-- The load that the metrics add. A poisoned lock adds nothing. -/
def metricsLoad (self : ChordNode) : ℚ :=
  match self.metrics with
  | some metrics =>
    metrics.cpuUsagePercent / 100 + metrics.memoryUsagePercent / 100 +
      metrics.requestRatePerSecond * (1 / 100)
  | none => 0

/-- The end of `calculate_current_load`: the load by stored keys, connections and metrics, capped
at 1. -/
def currentLoad (dataCount connections : ℕ) (metricsLoad : ℚ) : ℚ :=
  min (dataCount * (1 / 1000) + connections / maxConnections + metricsLoad) 1

/-- The write of `check_and_rebalance` to the metrics. -/
def publishLoad (self : ChordNode) (load : ℚ) (connections : ℕ) : ChordNode :=
  { self with
    metrics := self.metrics.map fun metrics =>
      { metrics with cpuUsagePercent := load * 100, activeConnections := connections } }

/-- The replica node that `rebalance_data` migrates a key to: the first least loaded one besides
this node, when its load is lower than the node's own by more than 0.2. A node without a recorded
load counts as fully loaded. -/
def migrationTarget (self : ChordNode) (replicaNodes : List NodeInfo) : Option NodeInfo :=
  match (replicaNodes.filter fun n => n.id ≠ self.info.id).argmin (self.loadOf 1) with
  | some leastLoaded =>
    if self.loadOf 1 leastLoaded < self.loadOf 0 self.info - 2 / 10 then some leastLoaded else none
  | none => none

/-- `data.remove(&key)`. -/
def removeKey (self : ChordNode) (key : NodeId) : ChordNode :=
  { self with data := self.data.erase key }

/-! ### Local metrics -/

/-- The number of the ids divided by the length of the arc from the node to its successor. -/
def calculateLocalNetworkSizeEstimate (self : ChordNode) : ℚ :=
  let selfId := nodeIdToBiguint self.info.id
  let succId := nodeIdToBiguint self.successor.id
  let maxId := 2 ^ 160
  let range := if selfId ≤ succId then succId - selfId else maxId - selfId + succId
  if range = 0 then 1 else (maxId : ℚ) / range

/-- `update_network_estimate_f64`. -/
def updateNetworkEstimate (currentEstimate localValue networkSize contributionFactor : ℚ)
    (bounded : Bool) (smoothingFactor : ℚ) : ℚ :=
  let newEstimate :=
    if currentEstimate = 0 then localValue * networkSize
    else
      let localContribution := localValue * networkSize
      let blended :=
        (1 - contributionFactor) * currentEstimate + contributionFactor * localContribution
      if bounded then applyBounds currentEstimate blended else blended
  if 0 < currentEstimate then
    (1 - smoothingFactor) * currentEstimate + smoothingFactor * newEstimate
  else newEstimate

/-- What `update_local_metrics` writes, from the share of fingers that are other nodes, the number
of keys, and the local estimate of the network size. -/
def refreshMetrics (routingTableHealth : ℚ) (localKeyCount : ℕ) (localSizeEstimate : ℚ)
    (metrics : NetworkMetrics) : NetworkMetrics :=
  let networkSizeEstimate :=
    updateNetworkEstimate metrics.networkSizeEstimate localSizeEstimate 1 (2 / 10) true (1 / 10)
  { metrics with
    routingTableHealth
    localKeyCount
    networkSizeEstimate
    totalNetworkKeysEstimate :=
      updateNetworkEstimate metrics.totalNetworkKeysEstimate localKeyCount networkSizeEstimate
        (1 / 10) false (5 / 100) }

/-- The share of the fingers that are not the node itself. -/
def routingTableHealth (self : ChordNode) : ℚ :=
  (self.fingerTable.filter fun n => n.id ≠ self.info.id).length / M

/-- The nodes that metrics are shared with: the successor and the fingers, each once, without the
node itself. -/
def sharingCandidates (info successor : NodeInfo) (fingerTable : List NodeInfo) : List NodeInfo :=
  fingerTable.foldl
    (fun candidates finger =>
      if finger.id ≠ info.id ∧ ∀ n ∈ candidates, n.id ≠ finger.id then candidates ++ [finger]
      else candidates)
    [successor]

end ChordNode

end TaceChat
