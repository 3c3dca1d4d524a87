import TaceChat.Model.Maintenance

/-!
# The network

`handleConnection` answers one request at a node. `Network` is a world of nodes: the state behind
each address, and which addresses accept connections. A call runs the handler of the called node,
which may call further nodes, so `call` carries the number of nested calls it may still open. A
call that runs out of nesting has not returned (`none` of `StateT`), which is different from a
call that returned an error.

What happens to a call is up to the `Medium`, which reads and updates a state `φ` of its own: it
may deliver the call, lose it, or lose the reply.
-/

set_option autoImplicit false

namespace TaceChat

/-- `handle_share_metrics`. A panic poisons the lock and ends the handler without a reply. A node
with a poisoned lock sends the incoming metrics back. -/
def handleShareMetrics {σ : Type} (env : NodeEnv σ) (incoming : NetworkMetrics) :
    NodeM σ (Option NetworkMetrics) := do
  match (← env.safeLock).metrics with
  | none => return some incoming
  | some localMetrics =>
    let averaged := ChordNode.averageMetrics localMetrics incoming
    env.safeUpdate fun n => { n with metrics := averaged }
    return averaged

/-- The reply of a node to one request. `none` when the handler dies without a reply. -/
def handleConnection {σ : Type} (env : NodeEnv σ) (message : DhtMessage) :
    NodeM σ (Option DhtMessage) := do
  match message with
  | .findSuccessor id =>
    let successor ← findSuccessor env id
    return some (.foundSuccessor successor.id successor.address successor.apiAddress)
  | .findPredecessor id =>
    let predecessor ← findPredecessor env id
    return some (.foundPredecessor predecessor.id predecessor.address predecessor.apiAddress)
  | .getSuccessor =>
    let successor := (← env.safeLock).successor
    return some (.foundSuccessor successor.id successor.address successor.apiAddress)
  | .closestPrecedingNode id =>
    let cpn := (← env.safeLock).closestPrecedingNode id
    return some (.foundClosestPrecedingNode cpn.id cpn.address cpn.apiAddress)
  | .store key value =>
    store env key value
    return some .pong
  | .retrieve key =>
    let value ← retrieve env key
    return some (.retrieved key value)
  | .getPredecessor =>
    let predecessor := (← env.safeLock).predecessor
    return some (.predecessor (predecessor.map NodeInfo.id) (predecessor.map NodeInfo.address)
      (predecessor.map NodeInfo.apiAddress))
  | .notify id address apiAddress =>
    notify env ⟨id, address, apiAddress⟩
    return some .pong
  | .ping => return some .pong
  | .getDataRange start «end» =>
    return some (.dataRange ((← env.safeLock).getDataRange start «end»))
  | .shareMetrics metrics =>
    return (← handleShareMetrics env metrics).map .metricsShared
  | .replicateData key values replicaId =>
    let success ← handleReplicateData env key values replicaId
    return some (.replicationAck key success)
  | .requestReplicas keyRangeStart keyRangeEnd =>
    return some (.replicaData
      ((← env.safeLock).handleRequestReplicas keyRangeStart keyRangeEnd))
  | _ => return some (.error "Unsupported message type")

/-- What becomes of a call. -/
inductive Delivery
  | answered
  | notDelivered
  | replyLost
  deriving DecidableEq

/-- What decides the fate of each call, from its address and message and a state of its own. -/
abbrev Medium (φ : Type) : Type := φ → String → DhtMessage → Delivery × φ

/-- The medium that answers every call. -/
def reliable : Medium Unit := fun _ _ _ => (.answered, ())

/-- The nodes by their addresses, who listens, and the state of the medium. -/
structure Network (φ : Type) where
  node : String → ChordNode
  listening : String → Bool
  medium : φ

namespace Network

variable {φ : Type}

/-- Replaces the node at an address. -/
def setNode (address : String) (n : ChordNode) (net : Network φ) : Network φ :=
  { net with node := Function.update net.node address n }

/-- A call to the node at an address, with the nesting it may open. -/
def call (medium : Medium φ) : ℕ → String → DhtMessage → NodeM (Network φ) (Option DhtMessage)
  | 0, _, _ => fun _ => none
  | depth + 1, address, message => do
    let net ← get
    let (delivery, state) := medium net.medium address message
    set { net with medium := state }
    if delivery = .notDelivered || !net.listening address then
      return none
    else
      let env : NodeEnv (Network φ) :=
        ⟨fun net => net.node address, setNode address, call medium depth⟩
      let response ← handleConnection env message
      return if delivery = .replyLost then none else response

/-- The environment of the node at an address. -/
def env (medium : Medium φ) (depth : ℕ) (address : String) : NodeEnv (Network φ) :=
  ⟨fun net => net.node address, setNode address, call medium depth⟩

end Network

end TaceChat
