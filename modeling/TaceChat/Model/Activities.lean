import TaceChat.Model.Api
import TaceChat.Model.Maintenance
import TaceChat.Model.Network

/-!
# What nodes do by themselves

A node joins when it starts, then it runs the tasks of its background loop and serves the public
API. An `Activity` is one of these from its start to its end, and `Activity.run` runs it in a
network. The handlers that answer other nodes are parts of the activities of those nodes.
-/

set_option autoImplicit false

namespace TaceChat

/-- What a node does from its start to its end, one at a time. -/
inductive Activity
  /-- `join` with a bootstrap node. -/
  | join (bootstrapAddress : String)
  /-- A task of the background loop. -/
  | upkeep (task : Upkeep)
  /-- `message_handler`, at the time `now`. -/
  | post (now : ℕ) (request : Except BodyError MessagePayload)

open Network in
/-- The activity of the node at an address, in a network that answers every call. -/
def Activity.run (sha1 : List UInt8 → NodeId) (serialize : StoredMessage → Option Value)
    (depth : ℕ) (address : String) : Activity → NodeM (Network Unit) Unit
  | .join bootstrapAddress =>
    TaceChat.join (env reliable depth address) (some bootstrapAddress)
  | .upkeep task => task.run (env reliable depth address)
  | .post now request =>
    discard <| messageHandler (env reliable depth address) sha1 serialize now request

open Network in
/-- The nodes at the addresses run tasks of their background loops, one after the other. -/
def background (depth : ℕ) (tasks : List (String × Upkeep)) : NodeM (Network Unit) Unit :=
  forM tasks fun task => task.2.run (env reliable depth task.1)

/-- The network after some nodes have stopped without a word. -/
def Network.crash {φ : Type} (dead : String → Bool) (net : Network φ) : Network φ :=
  { net with listening := fun address => net.listening address && !dead address }

end TaceChat
