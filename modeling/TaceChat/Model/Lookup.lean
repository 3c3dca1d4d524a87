import TaceChat.Library.Returns
import TaceChat.Model.ChordNode

/-!
# Lookups

An operation of a node runs in a `NodeEnv`: the node's own state inside a world `σ`, and the
client through which the node calls others. The source is generic in the client
(`T: NetworkClient`), and so is the model. A call may change the world, the caller's own state
included, because other tasks of the node run while the call is awaited. `none` as the result of
a call is an `Err`: the node logs it and takes the branch for a failed call.

`findPredecessor` walks towards an id by asking each node for its closest preceding finger.
`findSuccessor` asks the node where the walk ends for its successor.
-/

set_option autoImplicit false

namespace TaceChat

/-- A computation of a node in the world `σ`. It may fail to return. -/
abbrev NodeM (σ α : Type) : Type := StateT σ Option α

/-- The world of a running node: its own state, and its network client. -/
structure NodeEnv (σ : Type) where
  node : σ → ChordNode
  setNode : ChordNode → σ → σ
  callNode : String → DhtMessage → NodeM σ (Option DhtMessage)

variable {σ : Type}

/-- `safe_lock`: the node's state as it is now. -/
def NodeEnv.safeLock (env : NodeEnv σ) : NodeM σ ChordNode := do
  return env.node (← get)

/-- `safe_update`: a write to the node's state. -/
def NodeEnv.safeUpdate (env : NodeEnv σ) (updateFn : ChordNode → ChordNode) : NodeM σ Unit :=
  modify fun w => env.setNode (updateFn (env.node w)) w

variable (env : NodeEnv σ)

/-- Number of hops `find_predecessor` makes before it gives up. -/
def maxRetries : ℕ := 10

/-- The next node of the walk: the closest preceding finger of `nPrime`, asked for over the
network unless `nPrime` is this node. -/
def nextNode (id : NodeId) (nPrime : NodeInfo) : NodeM σ (Option NodeInfo) := do
  let self ← env.safeLock
  if nPrime.id = self.info.id then
    return some (self.closestPrecedingNode id)
  else
    match ← env.callNode nPrime.address (.closestPrecedingNode id) with
    | some (.foundClosestPrecedingNode id address apiAddress) =>
      return some ⟨id, address, apiAddress⟩
    | _ => return none

/-- The successor of a node of the walk. -/
def successorOf (nPrime : NodeInfo) : NodeM σ (Option NodeInfo) := do
  let self ← env.safeLock
  if nPrime.id = self.info.id then
    return some self.successor
  else
    match ← env.callNode nPrime.address .getSuccessor with
    | some (.foundSuccessor id address apiAddress) => return some ⟨id, address, apiAddress⟩
    | _ => return none

/-- The loop of `find_predecessor`, with the number of hops it may still make. -/
def findPredecessorLoop (id : NodeId) : ℕ → NodeInfo → NodeInfo → NodeM σ NodeInfo
  | retries, nPrime, currentSuccessor => do
    if isBetween id nPrime.id currentSuccessor.id then
      return nPrime
    else
      match retries with
      | 0 => return nPrime
      | retries + 1 =>
        match ← nextNode env id nPrime with
        | none => return nPrime
        | some next =>
          -- The same node again: no finger leads closer.
          if next.id = nPrime.id then
            return nPrime
          else
            match ← successorOf env next with
            | none => return next
            | some successor => findPredecessorLoop id retries next successor

/-- Finds the predecessor of an id. -/
def findPredecessor (id : NodeId) : NodeM σ NodeInfo := do
  let self ← env.safeLock
  findPredecessorLoop env id maxRetries self.info self.successor

/-- The first entry of a successor list, other than the node itself, that answers a ping. -/
def firstReachable : List NodeInfo → NodeM σ (Option NodeInfo)
  | [] => return none
  | successor :: rest => do
    let self ← env.safeLock
    if successor.id = self.info.id then
      firstReachable rest
    else
      match ← env.callNode successor.address .ping with
      | some .pong => return some successor
      | _ => firstReachable rest

/-- `find_next_available_successor`. -/
def findNextAvailableSuccessor : NodeM σ (Option NodeInfo) := do
  firstReachable env (← env.safeLock).successorList

/-- Finds the successor of an id. -/
def findSuccessor (id : NodeId) : NodeM σ NodeInfo := do
  let predecessor ← findPredecessor env id
  let self ← env.safeLock
  if predecessor.id = self.info.id then
    return self.successor
  else
    match ← env.callNode predecessor.address .getSuccessor with
    | some (.foundSuccessor id address apiAddress) => return ⟨id, address, apiAddress⟩
    | _ =>
      match ← findNextAvailableSuccessor env with
      | some nextAvailable => return nextAvailable
      | none => return (← env.safeLock).successor

/-- Finds the node for a key. A node takes every key that one of its virtual nodes covers. -/
def findSuccessorWithVirtualNodes (key : NodeId) : NodeM σ NodeInfo := do
  let self ← env.safeLock
  if self.virtualNodes.any fun vnodeId => isBetween key self.info.id vnodeId || key = vnodeId then
    return self.info
  else
    findSuccessor env key

/-- Refreshes the finger `i`, which the source draws at random from `1..M`. -/
def fixFingers (i : ℕ) : NodeM σ Unit := do
  let self ← env.safeLock
  let successor ← findSuccessor env (addIdPowerOf2 self.info.id i)
  env.safeUpdate fun n => { n with fingerTable := n.fingerTable.set i successor }

end TaceChat
