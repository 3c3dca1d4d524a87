import TaceChat.Model.Storage

/-!
# Joining and maintaining the ring

`join` finds this node's successor and pulls data from it. `stabilize` asks the successor for
its predecessor, adopts that node when it lies in between, notifies the successor, and rebuilds
the successor list. `notify` is the handler of the notification: it may take the notifier as the
predecessor, and then pushes data to it. `checkPredecessor` pings the predecessor and recovers
data when the ping fails.
-/

set_option autoImplicit false

namespace TaceChat

variable {σ : Type} (env : NodeEnv σ)

/-- Calls `act` for each value of each key, in order. -/
def forEachValue (data : List (NodeId × List Value)) (act : NodeId → Value → NodeM σ Unit) :
    NodeM σ Unit :=
  forM data fun entry => forM entry.2 fun value => act entry.1 value

/-- The part of `join` that asks the bootstrap node for this node's successor. A node never takes
itself as its successor when it joins. -/
def findJoinSuccessor (address : String) : NodeM σ (Option NodeInfo) := do
  let self ← env.safeLock
  match ← env.callNode address (.findSuccessor self.info.id) with
  | some (.foundSuccessor id address apiAddress) =>
    if id = self.info.id then return none else return some ⟨id, address, apiAddress⟩
  | _ => return none

/-- The part of `join` that requests data from the successor and stores what it gets. -/
def pullData (successorInfo : NodeInfo) : NodeM σ Unit := do
  let self ← env.safeLock
  match ← env.callNode successorInfo.address
      (.getDataRange self.info.id successorInfo.id) with
  | some (.dataRange data) => forEachValue data fun key value => store env key value
  | _ => return ()

/-- Joins the network of a bootstrap node, or starts a new network. -/
def join (bootstrapAddress : Option String) : NodeM σ Unit := do
  match bootstrapAddress with
  | none => env.safeUpdate ChordNode.startNewNetwork
  | some address =>
    match ← findJoinSuccessor env address with
    | none => return ()
    | some successorInfo => do
      env.safeUpdate fun n => { n with successor := successorInfo }
      pullData env successorInfo

/-- The walk of `update_successor_list` along the successors, for `k` more entries. It stops
where it would come back to this node. -/
def walkSuccessors : ℕ → NodeInfo → NodeM σ (List NodeInfo)
  | 0, _ => return []
  | k + 1, current => do
    let self ← env.safeLock
    if current.id = self.info.id then
      return []
    else
      match ← env.callNode current.address .getSuccessor with
      | some (.foundSuccessor id address apiAddress) =>
        let next : NodeInfo := ⟨id, address, apiAddress⟩
        if next.id = self.info.id then
          return []
        else do
          let rest ← walkSuccessors k next
          return next :: rest
      | _ => return []

/-- A list filled up to the size of a successor list with its last entry. -/
def fillSuccessorList (head : NodeInfo) (rest : List NodeInfo) : List NodeInfo :=
  let newList := head :: rest
  newList ++ List.replicate (successorListSize - newList.length)
    (newList.getLast (List.cons_ne_nil head rest))

/-- Rebuilds the successor list from the current successor. -/
def updateSuccessorList : NodeM σ Unit := do
  let currentSuccessor := (← env.safeLock).successor
  let rest ← walkSuccessors env (successorListSize - 1) currentSuccessor
  env.safeUpdate fun n => { n with successorList := fillSuccessorList currentSuccessor rest }

/-- `stabilize` when the successor does not answer. -/
def replaceSuccessor : NodeM σ Unit := do
  match ← findNextAvailableSuccessor env with
  | some newSuccessor => do
    env.safeUpdate fun n => { n with successor := newSuccessor }
    updateSuccessorList env
  | none => return ()

/-- `stabilize` when the successor has answered: the write to the successor, the notification,
and the new successor list. The reply to the notification is only logged. -/
def notifySuccessor (successor : NodeInfo) (response : DhtMessage) : NodeM σ Unit := do
  match response with
  | .predecessor (some xId) (some xAddress) (some xApiAddress) =>
    env.safeUpdate fun n => n.adoptSuccessor successor ⟨xId, xAddress, xApiAddress⟩
  | _ => pure ()
  let self ← env.safeLock
  discard <| env.callNode self.successor.address
    (.notify self.info.id self.info.address self.info.apiAddress)
  updateSuccessorList env

/-- Asks the successor for its predecessor. A successor that does not answer is replaced. -/
def stabilize : NodeM σ Unit := do
  let self ← env.safeLock
  if self.info.id = self.successor.id then
    -- The only node of the network has no predecessor.
    env.safeUpdate fun n => { n with predecessor := none }
  else
    match ← env.callNode self.successor.address .getPredecessor with
    | none => replaceSuccessor env
    | some response => notifySuccessor env self.successor response

/-- The handler of a notification. A node that takes the notifier as its predecessor pushes the
data of the range (notifier, self] to it. -/
def notify (nPrime : NodeInfo) : NodeM σ Unit := do
  let self ← env.safeLock
  if nPrime.id = self.info.id then
    return ()
  else
    match self.notifyUpdate nPrime with
    | none => return ()
    | some updated => do
      env.safeUpdate fun _ => updated
      let dataToTransfer := updated.getDataRange nPrime.id self.info.id
      forEachValue dataToTransfer fun key value =>
        discard <| env.callNode nPrime.address (.store key value)

/-- Appends the recovered values, whatever the node has under the keys already. -/
def ChordNode.recover (self : ChordNode) (replicas : List (NodeId × List Value)) : ChordNode :=
  replicas.foldl (fun n entry => n.extendKey entry.1 entry.2) self

/-- Asks one node for the replicas of a range. -/
def recoverFrom (startRange endRange : NodeId) (node : NodeInfo) : NodeM σ Unit := do
  let self ← env.safeLock
  if node.id = self.info.id then
    return ()
  else
    match ← env.callNode node.address (.requestReplicas startRange endRange) with
    | some (.replicaData replicas) => env.safeUpdate fun n => n.recover replicas
    | _ => return ()

/-- Asks the nodes that might hold replicas. The predecessor is read when it has been cleared
already. -/
def reconcileDataAfterPredecessorFailure (failedPredecessor : NodeInfo) : NodeM σ Unit := do
  let self ← env.safeLock
  let ourPred := self.predecessor.map NodeInfo.id
  let startRange := ourPred.getD failedPredecessor.id
  let endRange := self.info.id
  forM (self.getReplicaNodesForRange startRange endRange) (recoverFrom env startRange endRange)

/-- Pings the predecessor, and clears it when the ping fails. -/
def checkPredecessor : NodeM σ Unit := do
  match (← env.safeLock).predecessor with
  | none => return ()
  | some predecessor =>
    match ← env.callNode predecessor.address .ping with
    | some .pong => return ()
    | _ => do
      env.safeUpdate fun n => { n with predecessor := none }
      reconcileDataAfterPredecessorFailure env predecessor

/-- The three tasks of the background loop that keep the ring. `i` is the finger that `fix_fingers`
draws. The other two tasks of the loop, which share metrics and balance the load, are not among them
(`Concurrent.shareAndUpdateMetrics`, `Concurrent.checkAndRebalance`). -/
inductive Upkeep
  | stabilize
  | fixFingers (i : ℕ)
  | checkPredecessor

/-- The code of a task. -/
def Upkeep.run : Upkeep → NodeM σ Unit
  | .stabilize => TaceChat.stabilize env
  | .fixFingers i => TaceChat.fixFingers env i
  | .checkPredecessor => TaceChat.checkPredecessor env

end TaceChat
