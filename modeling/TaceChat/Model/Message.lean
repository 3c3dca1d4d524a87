import Mathlib.Data.Rat.Defs
import TaceChat.Model.NodeId

/-!
# Messages and metrics

`DhtMessage` is the one enumeration of requests and replies that nodes exchange
(`dht_messages.rs`), and `NetworkMetrics` is the record that the `ShareMetrics` exchange
carries (`metrics.rs`). The floating-point fields are exact rationals here. A `Duration` is a
number of nanoseconds.
-/

set_option autoImplicit false

namespace TaceChat

/-- A stored value: `Vec<u8>`. -/
abbrev Value := List UInt8

/-- `std::time::Duration` in nanoseconds. It has 64 bits for the whole seconds. -/
abbrev Duration := ℕ

/-- The addition of durations. It panics (`none`) when the seconds leave 64 bits. -/
def Duration.checkedAdd (a b : Duration) : Option Duration :=
  if a + b < 2 ^ 64 * 1000000000 then some (a + b) else none

/-- `NetworkMetrics`, with rationals in place of the floating-point numbers. -/
structure NetworkMetrics where
  nodeChurnRate : ℚ
  routingTableHealth : ℚ
  operationSuccessRate : ℚ
  operationLatency : Duration
  messageTypeRatio : ℚ
  localKeyCount : ℕ
  totalNetworkKeysEstimate : ℚ
  networkSizeEstimate : ℚ
  cpuUsagePercent : ℚ
  memoryUsagePercent : ℚ
  diskUsagePercent : ℚ
  activeConnections : ℕ
  requestRatePerSecond : ℚ
  deriving DecidableEq

/-- `NetworkMetrics::default()`. -/
def NetworkMetrics.default : NetworkMetrics where
  nodeChurnRate := 0
  routingTableHealth := 0
  operationSuccessRate := 1
  operationLatency := 0
  messageTypeRatio := 0
  localKeyCount := 0
  totalNetworkKeysEstimate := 0
  networkSizeEstimate := 1
  cpuUsagePercent := 0
  memoryUsagePercent := 0
  diskUsagePercent := 0
  activeConnections := 0
  requestRatePerSecond := 0

/-- The id of a node and its two addresses. -/
structure NodeInfo where
  id : NodeId
  address : String
  apiAddress : String
  deriving DecidableEq

/-- The messages between nodes, requests and replies alike. -/
inductive DhtMessage
  | error (message : String)
  | findSuccessor (id : NodeId)
  | foundSuccessor (id : NodeId) (address apiAddress : String)
  | findPredecessor (id : NodeId)
  | foundPredecessor (id : NodeId) (address apiAddress : String)
  | notify (id : NodeId) (address apiAddress : String)
  | getPredecessor
  | predecessor (id : Option NodeId) (address apiAddress : Option String)
  | store (key : NodeId) (value : Value)
  | retrieve (key : NodeId)
  | retrieved (key : NodeId) (value : Option (List Value))
  | closestPrecedingNode (id : NodeId)
  | foundClosestPrecedingNode (id : NodeId) (address apiAddress : String)
  | getSuccessor
  | ping
  | pong
  | getDataRange (start «end» : NodeId)
  | dataRange (data : List (NodeId × List Value))
  | shareMetrics (metrics : NetworkMetrics)
  | metricsShared (metrics : NetworkMetrics)
  | replicateData (key : NodeId) (values : List Value) (replicaId : UInt8)
  | replicationAck (key : NodeId) (success : Bool)
  | requestReplicas (keyRangeStart keyRangeEnd : NodeId)
  | replicaData (replicas : List (NodeId × List Value))
  deriving DecidableEq

end TaceChat
