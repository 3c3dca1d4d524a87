import TaceChat.Model.Lookup

/-!
# Storing and retrieving

`store` appends a value at this node and sends it to the replica nodes of the key.
`retrieve` answers from this node's own data, and otherwise asks the replica nodes, whose
handlers call `retrieve` in turn.
-/

set_option autoImplicit false

namespace TaceChat

variable {σ : Type} (env : NodeEnv σ)

/-- The nodes for a key: the primary, and the least loaded of the candidates. -/
def getReplicaNodes (key : NodeId) : NodeM σ (List NodeInfo) := do
  let primary ← findSuccessorWithVirtualNodes env key
  let self ← env.safeLock
  return primary :: (self.replicaCandidates primary).take (replicationFactor - 1)

/-- Sends the values to one replica node, unless it is this node. The source logs the reply. -/
def replicateTo (key : NodeId) (values : List Value) (i : ℕ) (node : NodeInfo) :
    NodeM σ Unit := do
  let self ← env.safeLock
  if node.id = self.info.id then
    return ()
  else
    discard <| env.callNode node.address (.replicateData key values (UInt8.ofNat (i + 1)))

/-- Replicates data to the replica nodes of the key. -/
def replicateData (key : NodeId) (values : List Value) : NodeM σ Unit := do
  let replicaNodes ← getReplicaNodes env key
  forM replicaNodes.zipIdx fun p => replicateTo env key values p.2 p.1

/-- Stores a value at this node, and then at the replica nodes of the key. -/
def store (key : NodeId) (value : Value) : NodeM σ Unit := do
  env.safeUpdate fun n => n.extendKey key [value]
  replicateData env key [value]

/-- The handler of a replication request. -/
def handleReplicateData (key : NodeId) (values : List Value) (_replicaId : UInt8) :
    NodeM σ Bool := do
  env.safeUpdate fun n => n.extendKey key values
  return true

/-- Asks the replica nodes in order until one of them has the key. -/
def tryReplicas (key : NodeId) : List NodeInfo → NodeM σ (Option (List Value))
  | [] => return none
  | node :: rest => do
    let self ← env.safeLock
    if node.id = self.info.id then
      -- This node itself has been tried already.
      tryReplicas key rest
    else
      match ← env.callNode node.address (.retrieve key) with
      | some (.retrieved _ (some value)) => return some value
      | _ => tryReplicas key rest

/-- Retrieves from the replica nodes, the least loaded first. -/
def retrieveFromReplicas (key : NodeId) : NodeM σ (Option (List Value)) := do
  let replicaNodes ← getReplicaNodes env key
  let self ← env.safeLock
  tryReplicas env key (replicaNodes.insertionSort self.loadLe)

/-- Retrieves the values under a key. -/
def retrieve (key : NodeId) : NodeM σ (Option (List Value)) := do
  match (← env.safeLock).data.lookup key with
  | some value => return some value
  | none => retrieveFromReplicas env key

end TaceChat
