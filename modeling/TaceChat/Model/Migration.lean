import TaceChat.Library.Contracts
import TaceChat.Model.Concurrent

/-!
# A migration among other accesses to its key

`migrate_key_to_node` runs at a node beside stores, replications and retrievals of the same key. The
migration is the first program of a pool. What has become of each of its sends is up to the network:
the target may not get it, or handle it and reply, or handle it and the reply may be lost.
-/

set_option autoImplicit false

namespace TaceChat

/-- The other accesses to the key at the node. -/
inductive KeyTask
  | store (value : Value)
  | replicateData (values : List Value) (replicaId : UInt8)
  | retrieve

/-- The program of an access. -/
def KeyTask.prog (key : NodeId) : KeyTask → NodeProg Unit
  | .store value => Concurrent.store key value
  | .replicateData values replicaId =>
    discard <| Concurrent.handleReplicateData key values replicaId
  | .retrieve => discard <| Concurrent.retrieve key

/-- The node from which a key is migrated, and what the target has accepted. -/
structure Migration where
  pool : Pool ChordNode (String × DhtMessage) (Option DhtMessage)
  /-- The values that the target has stored under the key, in their order. -/
  accepted : List Value

/-- What happens next at the node. -/
inductive MigrationEvent
  /-- Another access to the key begins. -/
  | start (task : KeyTask)
  /-- The program of that number takes its next step. The rest is what becomes of its request, if it
  waits with one. -/
  | advance (i : ℕ) (delivery : Delivery) (response : DhtMessage)

/-- What the caller gets. -/
def Delivery.reply (delivery : Delivery) (response : DhtMessage) : Option DhtMessage :=
  if delivery = .answered then some response else none

/-- The values that the target accepts when it handles a request. -/
def acceptedBy (key : NodeId) (target : NodeInfo) : Option (String × DhtMessage) → List Value
  | some (address, .store k value) => if address = target.address ∧ k = key then [value] else []
  | _ => []

namespace Migration

/-- The migration begins. -/
def start (n : ChordNode) (key : NodeId) (target : NodeInfo) : Migration :=
  ⟨⟨n, [Concurrent.migrateKeyToNode key target]⟩, []⟩

variable (key : NodeId) (target : NodeInfo)

/-- The state after an event. A request that is delivered is handled at the target, even if the
reply is lost. -/
def step (s : Migration) : MigrationEvent → Migration
  | .start task => { s with pool := s.pool.step (KeyTask.prog key) (.start task) }
  | .advance i delivery response =>
    { pool := s.pool.step (KeyTask.prog key) (.advance i (delivery.reply response))
      accepted :=
        if delivery = .notDelivered then s.accepted
        else s.accepted ++ acceptedBy key target (s.pool.pendingAt i) }

/-- The state after the events, in their order. -/
def run (s : Migration) (events : List MigrationEvent) : Migration :=
  events.foldl (step key target) s

/-- The values that the node itself has under the key. -/
def held (s : Migration) : List Value := s.pool.state.valuesAt key

end Migration

end TaceChat
