import TaceChat.Model.Concurrent

/-!
# The constructors of a node

`ChordNode::new` generates the id of a node from its address. The other two constructors of the
library (`lib.rs`) call it and then put a given id in the place of the generated one. The network
client is no part of the state of a node here.
-/

set_option autoImplicit false

namespace TaceChat

/-- The part of `Config` that the constructors read. -/
structure Config where
  p2pAddress : String
  apiAddress : String
  nodeId : Option NodeId

namespace ChordNode

variable (sha1 : List UInt8 → NodeId)

/-- `new_with_client`. Only the id in `info` is replaced. -/
def newWithClient (nodeId : NodeId) (p2pAddress apiAddress : String) : ChordNode :=
  let node := new sha1 p2pAddress apiAddress
  { node with info := { node.info with id := nodeId } }

/-- `from_config`. A configured id replaces the one in `info`. -/
def fromConfig (config : Config) : ChordNode :=
  let node := new sha1 config.p2pAddress config.apiAddress
  match config.nodeId with
  | some nodeId => { node with info := { node.info with id := nodeId } }
  | none => node

end ChordNode

/-- A call of one of the public constructors. -/
inductive Construction
  | new (address apiAddress : String)
  | newWithClient (nodeId : NodeId) (p2pAddress apiAddress : String)
  | fromConfig (config : Config)

namespace Construction

/-- The node that is constructed. -/
def node (sha1 : List UInt8 → NodeId) : Construction → ChordNode
  | .new address apiAddress => ChordNode.new sha1 address apiAddress
  | .newWithClient nodeId p2pAddress apiAddress =>
    ChordNode.newWithClient sha1 nodeId p2pAddress apiAddress
  | .fromConfig config => ChordNode.fromConfig sha1 config

/-- The address that the caller gives. -/
def address : Construction → String
  | .new address _ => address
  | .newWithClient _ p2pAddress _ => p2pAddress
  | .fromConfig config => config.p2pAddress

/-- The id that the caller gives, if any. -/
def nodeId : Construction → Option NodeId
  | .new _ _ => none
  | .newWithClient nodeId _ _ => some nodeId
  | .fromConfig config => config.nodeId

end Construction

/-- `create_network`. -/
def Concurrent.createNetwork : NodeProg Unit := Concurrent.join none

end TaceChat
