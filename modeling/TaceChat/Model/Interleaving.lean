import TaceChat.Model.Maintenance

/-!
# Joins and stabilizations step by step

`join`, `stabilize` and `notify` of `Model.Maintenance` run to their end. Here the same code is cut
where the source awaits a call or takes a lock again, and the pieces of all nodes interleave. The
pieces compute with the same functions of `ChordNode`. `Task` is where a node is in its own join or
stabilization, with the local variables that it still needs and the reply that is under way to it.
Handlers run when a request arrives, at any time between the request and the reply.

Every call is answered. Data, fingers and successor lists are not read by these steps. What
`update_successor_list` writes is arbitrary.
-/

set_option autoImplicit false

namespace TaceChat

/-- Where a node is in its own code. -/
inductive Task
  /-- The node takes no part. -/
  | outside
  /-- The node has not started to join. -/
  | fresh
  /-- `join`: the bootstrap node has been asked for the successor. -/
  | lookingUp
  /-- `join`: the bootstrap node has named a successor. -/
  | named (successorInfo : NodeInfo)
  /-- The node has joined, and no stabilization is under way. -/
  | idle
  /-- `stabilize`: the node is its own successor, and will clear its predecessor. -/
  | clearing
  /-- `stabilize`: the successor has been asked for its predecessor. -/
  | asking (successor : NodeInfo)
  /-- `stabilize`: the successor has answered. -/
  | answered (successor : NodeInfo) (x : Option NodeInfo)
  /-- `stabilize`: the successor has been written. -/
  | written
  /-- `stabilize`: the notification has been sent. -/
  | notifying (currentSuccessor : NodeInfo)
  /-- `stabilize`: the notification has been handled. -/
  | notified

/-- The node has joined the network. -/
def Task.Joined : Task → Prop
  | outside | fresh | lookingUp | named _ => False
  | _ => True

/-- The states of the nodes, by address, and where each is in its own code. -/
structure RingState where
  node : String → ChordNode
  task : String → Task

namespace RingState

/-- Replaces the node at an address. -/
def setNode (address : String) (n : ChordNode) (s : RingState) : RingState :=
  { s with node := Function.update s.node address n }

/-- Replaces the task at an address. -/
def setTask (address : String) (task : Task) (s : RingState) : RingState :=
  { s with task := Function.update s.task address task }

/-- The task that was set. -/
@[simp] theorem setTask_task_self (a : String) (t : Task) (s : RingState) :
    (s.setTask a t).task a = t := Function.update_self _ _ _

/-- The other tasks stay. -/
theorem setTask_task_of_ne {a b : String} (h : b ≠ a) (t : Task) (s : RingState) :
    (s.setTask a t).task b = s.task b := Function.update_of_ne h _ _

/-- A task is no part of a node. -/
@[simp] theorem setTask_node (a : String) (t : Task) (s : RingState) :
    (s.setTask a t).node = s.node := rfl

/-- The node that was set. -/
@[simp] theorem setNode_node_self (a : String) (n : ChordNode) (s : RingState) :
    (s.setNode a n).node a = n := Function.update_self _ _ _

/-- The other nodes stay. -/
theorem setNode_node_of_ne {a b : String} (h : b ≠ a) (n : ChordNode) (s : RingState) :
    (s.setNode a n).node b = s.node b := Function.update_of_ne h _ _

/-- What the handler of a notification does to the pointers of the node. -/
def handleNotify (self : ChordNode) (nPrime : NodeInfo) : ChordNode :=
  if nPrime.id = self.info.id then self else (self.notifyUpdate nPrime).getD self

/-- One step of one node. -/
inductive Step (s : RingState) : RingState → Prop
  | askBootstrap {a : String} (h : s.task a = .fresh) : Step s (s.setTask a .lookingUp)
  /-- The bootstrap node names some node that has joined already. -/
  | nameSuccessor {a b : String} (h : s.task a = .lookingUp) (joined : (s.task b).Joined) :
      Step s (s.setTask a (.named (s.node b).info))
  | joinWrite {a : String} {successorInfo : NodeInfo} (h : s.task a = .named successorInfo) :
      Step s ((s.setNode a { s.node a with successor := successorInfo }).setTask a .idle)
  | readSuccessor {a : String} (h : s.task a = .idle) :
      Step s (s.setTask a (if (s.node a).info.id = (s.node a).successor.id then .clearing
        else .asking (s.node a).successor))
  | clearPredecessor {a : String} (h : s.task a = .clearing) :
      Step s ((s.setNode a { s.node a with predecessor := none }).setTask a .idle)
  /-- The successor handles the request for its predecessor. -/
  | handleGetPredecessor {a : String} {successor : NodeInfo} (h : s.task a = .asking successor) :
      Step s (s.setTask a (.answered successor (s.node successor.address).predecessor))
  | writeSuccessor {a : String} {successor : NodeInfo} {x : Option NodeInfo}
      (h : s.task a = .answered successor x) :
      Step s ((s.setNode a (match x with
        | some x => (s.node a).adoptSuccessor successor x
        | none => s.node a)).setTask a .written)
  | sendNotify {a : String} (h : s.task a = .written) :
      Step s (s.setTask a (.notifying (s.node a).successor))
  /-- The current successor handles the notification. -/
  | receiveNotify {a : String} {currentSuccessor : NodeInfo}
      (h : s.task a = .notifying currentSuccessor) :
      Step s ((s.setNode currentSuccessor.address
        (handleNotify (s.node currentSuccessor.address) (s.node a).info)).setTask a .notified)
  | finish {a : String} (successorList : List NodeInfo) (h : s.task a = .notified) :
      Step s ((s.setNode a { s.node a with successorList }).setTask a .idle)

/-- The states that runs from `start` reach. -/
inductive Reachable (start : RingState) : RingState → Prop
  | refl : Reachable start start
  | step {s s' : RingState} (before : Reachable start s) (h : Step s s') : Reachable start s'

/-- The node ends a stabilization. -/
def Ends (s s' : RingState) (a : String) : Prop :=
  (s.task a = .notified ∨ s.task a = .clearing) ∧ s'.task a = .idle

/-- A run, with the nodes that have ended a stabilization in it. -/
inductive Run (start : RingState) : Set String → RingState → Prop
  | refl : Run start ∅ start
  | step {ended : Set String} {s s' : RingState} (before : Run start ended s) (h : Step s s') :
      Run start (ended ∪ {a | Ends s s' a}) s'

end RingState

end TaceChat
