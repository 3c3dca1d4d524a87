import TaceChat.Model.Concurrent

/-!
# The metrics exchange

`share_and_update_metrics` refreshes the metrics of a node, sends them to another node, and averages
the reply into its own metrics. The handler of the request averages the request and replies with the
result. Both averages are `handle_share_metrics`. `Gossip` is a network of nodes that do this, with
the messages that are under way.

A request may be handled again, because the client repeats a call that it got no reply to. What the
local estimate of the network size has returned is kept as history, which no step reads.
-/

set_option autoImplicit false

namespace TaceChat

namespace ChordNode

/-- `handle_share_metrics`: the node afterwards and the result. A panic poisons the lock. -/
def handleShareMetrics (self : ChordNode) (incoming : NetworkMetrics) :
    ChordNode × Option NetworkMetrics :=
  match self.metrics with
  | none => (self, some incoming)
  | some localMetrics =>
    let averaged := averageMetrics localMetrics incoming
    ({ self with metrics := averaged }, averaged)

/-- `update_local_metrics`. The finger table and the data are read before the successor is. -/
def updateLocalMetrics (self : ChordNode) (routingTableHealth : ℚ) (localKeyCount : ℕ) :
    ChordNode :=
  { self with
    metrics := self.metrics.map
      (refreshMetrics routingTableHealth localKeyCount self.calculateLocalNetworkSizeEstimate) }

end ChordNode

/-- A `ShareMetrics` message under way. -/
structure ShareRequest (ν : Type) where
  sender : ν
  receiver : ν
  metrics : NetworkMetrics

/-- A `MetricsShared` message under way. -/
structure ShareReply (ν : Type) where
  receiver : ν
  metrics : NetworkMetrics

/-- Nodes that exchange their metrics. -/
structure Gossip (ν : Type) where
  node : ν → ChordNode
  requests : List (ShareRequest ν)
  replies : List (ShareReply ν)
  /-- What `calculate_local_network_size_estimate` has returned at any node, the latest first. -/
  observed : List ℚ

/-- What happens next in the exchange. -/
inductive GossipEvent (ν : Type)
  /-- Other tasks of the node write its state, but not its metrics. -/
  | change (p : ν) (n : ChordNode)
  /-- `update_local_metrics` at the node. -/
  | update (p : ν) (routingTableHealth : ℚ) (localKeyCount : ℕ)
  /-- The node sends its metrics to another one. -/
  | share (p q : ν)
  /-- The request of that number is handled. -/
  | handleRequest (k : ℕ)
  /-- The request of that number will not be handled again. -/
  | dropRequest (k : ℕ)
  /-- The reply of that number is handled. -/
  | handleReply (k : ℕ)
  /-- The reply of that number is lost. -/
  | dropReply (k : ℕ)

namespace Gossip

variable {ν : Type} [DecidableEq ν]

/-- Replaces a node. -/
def setNode (p : ν) (n : ChordNode) (s : Gossip ν) : Gossip ν :=
  { s with node := Function.update s.node p n }

/-- The exchange after an event. A message that is not under way is no event. -/
def step (s : Gossip ν) : GossipEvent ν → Gossip ν
  | .change p n => s.setNode p { n with metrics := (s.node p).metrics }
  | .update p routingTableHealth localKeyCount =>
    match (s.node p).metrics with
    | none => s
    | some _ =>
      { s.setNode p ((s.node p).updateLocalMetrics routingTableHealth localKeyCount) with
        observed := (s.node p).calculateLocalNetworkSizeEstimate :: s.observed }
  | .share p q =>
    match (s.node p).metrics with
    | none => s
    | some localMetrics => { s with requests := s.requests ++ [⟨p, q, localMetrics⟩] }
  | .handleRequest k =>
    match s.requests[k]? with
    | none => s
    | some request =>
      let (updated, result) := (s.node request.receiver).handleShareMetrics request.metrics
      let s' := s.setNode request.receiver updated
      match result with
      | none => s'
      | some metrics => { s' with replies := s'.replies ++ [⟨request.sender, metrics⟩] }
  | .dropRequest k => { s with requests := s.requests.eraseIdx k }
  | .handleReply k =>
    match s.replies[k]? with
    | none => s
    | some reply =>
      let (updated, _) := (s.node reply.receiver).handleShareMetrics reply.metrics
      { s.setNode reply.receiver updated with replies := s.replies.eraseIdx k }
  | .dropReply k => { s with replies := s.replies.eraseIdx k }

/-- The exchange after the events, in their order. -/
def run (start : Gossip ν) (events : List (GossipEvent ν)) : Gossip ν := events.foldl step start

/-- One exchange with nothing in between: `p` sends its metrics to `q`, which replies. -/
def exchange (s : Gossip ν) (p q : ν) : Gossip ν :=
  s.run [.share p q, .handleRequest s.requests.length, .dropRequest s.requests.length,
    .handleReply s.replies.length]

/-- Nodes with default metrics that have exchanged nothing. -/
structure Fresh (s : Gossip ν) : Prop where
  metrics : ∀ p, (s.node p).metrics = some NetworkMetrics.default
  requests : s.requests = []
  replies : s.replies = []
  observed : s.observed = []

/-- The largest local estimate so far, or 1. -/
def largestObserved (s : Gossip ν) : ℚ := s.observed.foldr max 1

end Gossip

end TaceChat
