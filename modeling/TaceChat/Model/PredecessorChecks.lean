import TaceChat.Model.Concurrent
import TaceChat.Model.Interleaving

/-!
# Writes to the predecessor

The predecessor of a node is written by three operations that run at the same time: a notification
may install one, `check_predecessor` clears it after a failed ping, and `stabilize` clears it at a
node that is its own successor. The last two read the state of the node in one section and clear in
a later one. `PointerPhase` is where such an operation is, and `PointerPhase.prog` is what is left
of its program there.

`PointerState` is a node with any number of these operations. Two of its parts are history, which no
step reads: the predecessor that a notification has installed and nothing has cleared since
(`installed`), and for each operation the last write to the predecessor since it has read
(`since`).
-/

set_option autoImplicit false

namespace TaceChat

/-- Where an operation on the predecessor is. -/
inductive PointerPhase
  /-- `check_predecessor` before it reads the predecessor. -/
  | check
  /-- It has read this predecessor and waits for the reply to its ping. -/
  | pinging (predecessor : NodeInfo)
  /-- The ping has failed, and the predecessor is cleared next. -/
  | unreachable (predecessor : NodeInfo)
  /-- `stabilize` before it reads the successor. -/
  | stabilize
  /-- It has read that the node is its own successor, and the predecessor is cleared next. -/
  | alone
  /-- A notification that has not been handled. -/
  | notify (nPrime : NodeInfo)
  /-- Nothing that follows writes the predecessor. -/
  | ended
  deriving DecidableEq

namespace PointerPhase

/-- One step of an operation: the state of the node and the next phase. -/
def step (self : ChordNode) (pingAnswered : Bool) : PointerPhase → ChordNode × PointerPhase
  | .check =>
    match self.predecessor with
    | none => (self, .ended)
    | some predecessor => (self, .pinging predecessor)
  | .pinging predecessor => (self, if pingAnswered then .ended else .unreachable predecessor)
  | .unreachable _ => ({ self with predecessor := none }, .ended)
  | .stabilize => (self, if self.info.id = self.successor.id then .alone else .ended)
  | .alone => ({ self with predecessor := none }, .ended)
  | .notify nPrime => (RingState.handleNotify self nPrime, .ended)
  | .ended => (self, .ended)

/-- What is left of the program of `check_predecessor` and of `stabilize` in a phase of theirs. -/
def prog : PointerPhase → NodeProg Unit
  | .check => Concurrent.checkPredecessor
  | .pinging predecessor => do
    match ← Concurrent.callNode predecessor.address .ping with
    | some .pong => return ()
    | _ => do
      Prog.write fun n => { n with predecessor := none }
      Concurrent.reconcileDataAfterPredecessorFailure predecessor
  | .unreachable predecessor => do
    Prog.write fun n => { n with predecessor := none }
    Concurrent.reconcileDataAfterPredecessorFailure predecessor
  | .stabilize => Concurrent.stabilize
  | .alone => Prog.write fun n => { n with predecessor := none }
  | .notify nPrime => Concurrent.notify nPrime
  | .ended => return ()

end PointerPhase

/-- A write to the predecessor. -/
inductive PredecessorWrite
  | accepted (nPrime : NodeInfo)
  | cleared
  deriving DecidableEq

/-- The write of the next step of an operation. -/
def PointerPhase.write (self : ChordNode) : PointerPhase → Option PredecessorWrite
  | .unreachable _ | .alone => some .cleared
  | .notify nPrime =>
    if nPrime.id ≠ self.info.id ∧ (self.notifyUpdate nPrime).isSome then some (.accepted nPrime)
    else none
  | .check | .pinging _ | .stabilize | .ended => none

/-- An operation with what has happened to the predecessor meanwhile. -/
structure PointerTask where
  phase : PointerPhase
  /-- History: the last write to the predecessor since the operation has read. -/
  since : Option PredecessorWrite
  deriving DecidableEq

/-- A node with the operations that run at it. -/
structure PointerState where
  node : ChordNode
  /-- History: the predecessor of the last accepted notification, unless it was cleared since. -/
  installed : Option NodeInfo
  tasks : List PointerTask

/-- The operations that start. -/
inductive PointerOp
  | checkPredecessor
  | stabilize
  | notify (nPrime : NodeInfo)
  deriving DecidableEq

/-- Where an operation begins. -/
def PointerOp.start : PointerOp → PointerPhase
  | .checkPredecessor => .check
  | .stabilize => .stabilize
  | .notify nPrime => .notify nPrime

/-- What happens next at the node. -/
inductive PointerEvent
  | start (op : PointerOp)
  /-- The operation of that number takes its next step. -/
  | advance (i : ℕ) (pingAnswered : Bool)
  deriving DecidableEq

namespace PointerState

/-- The history of an operation after a write. -/
def note (write : Option PredecessorWrite) (t : PointerTask) : PointerTask :=
  match write with
  | none => t
  | some w => { t with since := some w }

/-- The history of the node after a write. -/
def installedAfter (installed : Option NodeInfo) : Option PredecessorWrite → Option NodeInfo
  | none => installed
  | some (.accepted nPrime) => some nPrime
  | some .cleared => none

/-- The history of an operation that takes a step: reading starts it anew. -/
def sinceAfter (t : PointerTask) : Option PredecessorWrite :=
  match t.phase with
  | .check | .stabilize => none
  | _ => t.since

/-- One step of an operation, with the histories after it. -/
def advance (s : PointerState) (i : ℕ) (pingAnswered : Bool) (t : PointerTask) : PointerState :=
  let (node, phase) := t.phase.step s.node pingAnswered
  let write := t.phase.write s.node
  { node
    installed := installedAfter s.installed write
    tasks := (s.tasks.map (note write)).set i ⟨phase, sinceAfter t⟩ }

/-- The state after an event. -/
def step (s : PointerState) : PointerEvent → PointerState
  | .start op => { s with tasks := s.tasks ++ [⟨op.start, none⟩] }
  | .advance i pingAnswered =>
    match s.tasks[i]? with
    | some t => s.advance i pingAnswered t
    | none => s

/-- A node after the events, in their order. -/
def run (node : ChordNode) (events : List PointerEvent) : PointerState :=
  events.foldl step ⟨node, none, []⟩

end PointerState

end TaceChat
