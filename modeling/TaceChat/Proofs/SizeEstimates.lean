import Mathlib.Tactic.Linarith
import TaceChat.Model.Gossip
import TaceChat.Proofs.Alone

/-!
# The estimates of the network size

Averages, bounds and smoothing keep an estimate between the old value and the new one, so no
estimate leaves the interval from 1 to the largest local estimate that any node has made
(`size_estimates_within_observed`). The invariant covers the messages under way. It also says that
the latencies are 0: nothing in the program measures one, so their sum does not overflow and no
handler panics.
-/

set_option autoImplicit false

namespace TaceChat

open Concurrent

/-! ### The two writes -/

section Writes

variable {σ : Type} {env : NodeEnv σ}

/-- The handler in a world does what it does to the state of the node. -/
theorem returns_handleShareMetrics (henv : env.Lawful) {incoming : NetworkMetrics} {w : σ}
    {Q : Option NetworkMetrics → σ → Prop} :
    Returns (handleShareMetrics env incoming) w Q ↔
      Q ((env.node w).handleShareMetrics incoming).2
        (env.setNode ((env.node w).handleShareMetrics incoming).1 w) := by
  unfold handleShareMetrics ChordNode.handleShareMetrics
  rw [returns_bind, returns_safeLock]
  cases h : (env.node w).metrics with
  | none =>
    dsimp only
    rw [returns_pure, henv.setNode_node]
  | some localMetrics =>
    dsimp only
    rw [returns_bind, returns_safeUpdate, returns_pure]

/-- `update_local_metrics` without other tasks in between. -/
theorem alone_updateLocalMetrics (henv : env.Lawful) :
    alone env updateLocalMetrics =
      env.safeUpdate fun n => n.updateLocalMetrics n.routingTableHealth n.data.keys.length := by
  simp only [updateLocalMetrics, alone_bind, alone_read henv, alone_write]
  rfl

end Writes

/-! ### What keeps an estimate in an interval -/

section Estimates

variable {low high c b l : ℚ}

/-- A bounded estimate lies between the old and the new one. -/
theorem applyBounds_mem (hpos : 0 ≤ c) (hc : low ≤ c ∧ c ≤ high) (hb : low ≤ b ∧ b ≤ high) :
    low ≤ ChordNode.applyBounds c b ∧ ChordNode.applyBounds c b ≤ high := by
  unfold ChordNode.applyBounds
  dsimp only
  split <;> split <;> constructor <;> linarith

/-- A bounded estimate is at most four times larger or smaller. -/
theorem applyBounds_factor (hpos : 0 < c) (b : ℚ) :
    c / 4 ≤ ChordNode.applyBounds c b ∧ ChordNode.applyBounds c b ≤ c * 4 := by
  unfold ChordNode.applyBounds
  dsimp only
  split <;> split <;> constructor <;> linarith

/-- `handle_share_metrics` on estimates. -/
theorem average_mem (hlow : 0 ≤ low) (hc : low ≤ c ∧ c ≤ high) (hb : low ≤ b ∧ b ≤ high) :
    low ≤ ChordNode.applySmoothing c (ChordNode.applyBounds c ((c + b) / 2)) ∧
      ChordNode.applySmoothing c (ChordNode.applyBounds c ((c + b) / 2)) ≤ high := by
  have hraw : low ≤ (c + b) / 2 ∧ (c + b) / 2 ≤ high := by constructor <;> linarith
  obtain ⟨hge, hle⟩ := applyBounds_mem (hlow.trans hc.1) hc hraw
  unfold ChordNode.applySmoothing
  constructor <;> linarith

/-- `update_local_metrics` on estimates. -/
theorem updateNetworkEstimate_mem (hlow : 0 < low) (hc : low ≤ c ∧ c ≤ high)
    (hl : low ≤ l ∧ l ≤ high) :
    low ≤ ChordNode.updateNetworkEstimate c l 1 (2 / 10) true (1 / 10) ∧
      ChordNode.updateNetworkEstimate c l 1 (2 / 10) true (1 / 10) ≤ high := by
  have hpos : 0 < c := hlow.trans_le hc.1
  have hblended : low ≤ (1 - 2 / 10) * c + 2 / 10 * (l * 1) ∧
      (1 - 2 / 10) * c + 2 / 10 * (l * 1) ≤ high := by
    constructor <;> linarith
  obtain ⟨hge, hle⟩ := applyBounds_mem hpos.le hc hblended
  unfold ChordNode.updateNetworkEstimate
  rw [if_neg hpos.ne', if_pos hpos, if_pos rfl]
  constructor <;> linarith

/-- A local estimate is at least 1: no arc is longer than the circle. -/
theorem one_le_calculateLocalNetworkSizeEstimate (n : ChordNode) :
    1 ≤ n.calculateLocalNetworkSizeEstimate := by
  have hself := nodeIdToBiguint_lt n.info.id
  have hsucc := nodeIdToBiguint_lt n.successor.id
  unfold ChordNode.calculateLocalNetworkSizeEstimate
  dsimp only
  have hrange : (if nodeIdToBiguint n.info.id ≤ nodeIdToBiguint n.successor.id then
      nodeIdToBiguint n.successor.id - nodeIdToBiguint n.info.id
    else 2 ^ 160 - nodeIdToBiguint n.info.id + nodeIdToBiguint n.successor.id) ≤ 2 ^ 160 := by
    split <;> omega
  generalize (if nodeIdToBiguint n.info.id ≤ nodeIdToBiguint n.successor.id then
      nodeIdToBiguint n.successor.id - nodeIdToBiguint n.info.id
    else 2 ^ 160 - nodeIdToBiguint n.info.id + nodeIdToBiguint n.successor.id) = range at hrange
  split
  · exact le_rfl
  · rename_i hne
    have hpos : (0 : ℚ) < range := Nat.cast_pos.mpr (Nat.pos_of_ne_zero hne)
    rw [one_le_div₀ hpos]
    exact_mod_cast hrange

end Estimates

/-! ### The invariant -/

/-- The estimate of the network size lies between 1 and a bound. -/
def NetworkMetrics.SizeWithin (bound : ℚ) (metrics : NetworkMetrics) : Prop :=
  1 ≤ metrics.networkSizeEstimate ∧ metrics.networkSizeEstimate ≤ bound

/-- The estimate is in its interval, and no latency has been measured. -/
structure NetworkMetrics.Sound (bound : ℚ) (metrics : NetworkMetrics) : Prop where
  size : metrics.SizeWithin bound
  latency : metrics.operationLatency = 0

variable {bound : ℚ} {metrics incoming : NetworkMetrics}

/-- A larger bound. -/
theorem NetworkMetrics.Sound.mono {bound' : ℚ} (h : metrics.Sound bound) (hle : bound ≤ bound') :
    metrics.Sound bound' :=
  ⟨⟨h.size.1, h.size.2.trans hle⟩, h.latency⟩

/-- The average of sound metrics exists and is sound. -/
theorem averageMetrics_sound (h : metrics.Sound bound) (h' : incoming.Sound bound) :
    ∃ averaged, ChordNode.averageMetrics metrics incoming = some averaged ∧
      averaged.Sound bound := by
  have hadd : Duration.checkedAdd metrics.operationLatency incoming.operationLatency = some 0 := by
    rw [h.latency, h'.latency]
    rfl
  unfold ChordNode.averageMetrics
  rw [hadd]
  exact ⟨_, rfl, average_mem zero_le_one h.size h'.size, rfl⟩

/-- A refresh with a local estimate in the interval. -/
theorem refreshMetrics_sound {routingTableHealth localSizeEstimate : ℚ} {localKeyCount : ℕ}
    (h : metrics.Sound bound) (hlocal : 1 ≤ localSizeEstimate ∧ localSizeEstimate ≤ bound) :
    (ChordNode.refreshMetrics routingTableHealth localKeyCount localSizeEstimate metrics).Sound
      bound :=
  ⟨updateNetworkEstimate_mem zero_lt_one h.size hlocal, h.latency⟩

/-- The handler keeps sound metrics and replies with them. -/
theorem handleShareMetrics_sound {self : ChordNode} (h : ∃ m, self.metrics = some m ∧ m.Sound bound)
    (h' : incoming.Sound bound) :
    ∃ averaged, averaged.Sound bound ∧
      self.handleShareMetrics incoming =
        ({ self with metrics := some averaged }, some averaged) := by
  obtain ⟨m, hm, hsound⟩ := h
  obtain ⟨averaged, haverage, hsound'⟩ := averageMetrics_sound hsound h'
  refine ⟨averaged, hsound', ?_⟩
  rw [ChordNode.handleShareMetrics, hm]
  dsimp only
  rw [haverage]

/-- Whatever comes in, one average changes a positive estimate by a factor between 0.925 and 1.3. -/
theorem handleShareMetrics_factor {self : ChordNode} {metrics' : NetworkMetrics}
    (hm : self.metrics = some metrics)
    (hm' : (self.handleShareMetrics incoming).1.metrics = some metrics')
    (hpos : 0 < metrics.networkSizeEstimate) :
    925 / 1000 * metrics.networkSizeEstimate ≤ metrics'.networkSizeEstimate ∧
      metrics'.networkSizeEstimate ≤ 13 / 10 * metrics.networkSizeEstimate := by
  rw [ChordNode.handleShareMetrics, hm] at hm'
  have haverage : ChordNode.averageMetrics metrics incoming = some metrics' := hm'
  obtain ⟨latency, -, hresult⟩ := Option.bind_eq_some_iff.mp haverage
  obtain ⟨hge, hle⟩ := applyBounds_factor hpos
    ((metrics.networkSizeEstimate + incoming.networkSizeEstimate) / 2)
  rw [← Option.some.inj hresult]
  unfold ChordNode.applySmoothing
  constructor <;> dsimp only <;> linarith

namespace Gossip

variable {ν : Type} {s : Gossip ν}

/-- Every node and every message has sound metrics. -/
structure Within (bound : ℚ) (s : Gossip ν) : Prop where
  node : ∀ p, ∃ m, (s.node p).metrics = some m ∧ m.Sound bound
  requests : ∀ r ∈ s.requests, r.metrics.Sound bound
  replies : ∀ r ∈ s.replies, r.metrics.Sound bound

/-- A larger bound. -/
theorem Within.mono {bound' : ℚ} (h : s.Within bound) (hle : bound ≤ bound') : s.Within bound' where
  node p := (h.node p).imp fun _ hm => ⟨hm.1, hm.2.mono hle⟩
  requests r hr := (h.requests r hr).mono hle
  replies r hr := (h.replies r hr).mono hle

/-- Nothing exceeds what has been observed at the start. -/
theorem Fresh.within (h : s.Fresh) : s.Within s.largestObserved := by
  have hone : s.largestObserved = 1 := by rw [largestObserved, h.observed]; rfl
  rw [hone]
  refine ⟨fun p => ⟨_, h.metrics p, ⟨le_rfl, le_rfl⟩, rfl⟩, ?_, ?_⟩
  · rw [h.requests]
    exact fun _ hr => absurd hr List.not_mem_nil
  · rw [h.replies]
    exact fun _ hr => absurd hr List.not_mem_nil

variable [DecidableEq ν]

/-- A node is written whose metrics stay sound. -/
theorem Within.setNode (h : s.Within bound) {p : ν} {n : ChordNode}
    (hn : ∃ m, n.metrics = some m ∧ m.Sound bound) : (s.setNode p n).Within bound := by
  refine ⟨fun q => ?_, h.requests, h.replies⟩
  show ∃ m, (Function.update s.node p n q).metrics = some m ∧ m.Sound bound
  by_cases hq : q = p
  · rw [hq, Function.update_self]
    exact hn
  · rw [Function.update_of_ne hq]
    exact h.node q

/-- No event lowers the largest local estimate, and every event keeps the invariant. -/
theorem Within.step (h : s.Within s.largestObserved) (event : GossipEvent ν) :
    (s.step event).Within (s.step event).largestObserved := by
  cases event with
  | change p n => exact h.setNode (h.node p)
  | update p routingTableHealth localKeyCount =>
    obtain ⟨m, hm, hsound⟩ := h.node p
    have hgrow : s.largestObserved ≤
        max (s.node p).calculateLocalNetworkSizeEstimate s.largestObserved := le_max_right _ _
    simp only [Gossip.step, hm]
    have hlocal := one_le_calculateLocalNetworkSizeEstimate (s.node p)
    have hset := Within.setNode (p := p) (h.mono hgrow)
      (n := (s.node p).updateLocalMetrics routingTableHealth localKeyCount)
      ⟨_, congrArg (Option.map _) hm,
        refreshMetrics_sound (hsound.mono hgrow) ⟨hlocal, le_max_left _ _⟩⟩
    exact ⟨hset.node, hset.requests, hset.replies⟩
  | share p q =>
    obtain ⟨m, hm, hsound⟩ := h.node p
    simp only [Gossip.step, hm]
    refine ⟨h.node, fun r hr => ?_, h.replies⟩
    rcases List.mem_append.mp hr with hr | hr
    · exact h.requests r hr
    · rw [List.mem_singleton.mp hr]
      exact hsound
  | handleRequest k =>
    cases hk : s.requests[k]? with
    | none =>
      simp only [Gossip.step, hk]
      exact h
    | some request =>
      -- The new metrics of the receiver are those of the reply.
      obtain ⟨averaged, hsound, hhandle⟩ := handleShareMetrics_sound (h.node request.receiver)
        (h.requests request (List.mem_of_getElem? hk))
      simp only [Gossip.step, hk, hhandle]
      have hset := h.setNode (p := request.receiver)
        (n := { s.node request.receiver with metrics := some averaged }) ⟨averaged, rfl, hsound⟩
      refine ⟨hset.node, hset.requests, fun r hr => ?_⟩
      rcases List.mem_append.mp hr with hr | hr
      · exact h.replies r hr
      · rw [List.mem_singleton.mp hr]
        exact hsound
  | dropRequest k =>
    exact ⟨h.node, fun r hr => h.requests r (List.mem_of_mem_eraseIdx hr), h.replies⟩
  | handleReply k =>
    cases hk : s.replies[k]? with
    | none =>
      simp only [Gossip.step, hk]
      exact h
    | some reply =>
      obtain ⟨averaged, hsound, hhandle⟩ := handleShareMetrics_sound (h.node reply.receiver)
        (h.replies reply (List.mem_of_getElem? hk))
      simp only [Gossip.step, hk, hhandle]
      have hset := h.setNode (p := reply.receiver)
        (n := { s.node reply.receiver with metrics := some averaged }) ⟨averaged, rfl, hsound⟩
      exact ⟨hset.node, hset.requests, fun r hr => h.replies r (List.mem_of_mem_eraseIdx hr)⟩
  | dropReply k =>
    exact ⟨h.node, h.requests, fun r hr => h.replies r (List.mem_of_mem_eraseIdx hr)⟩

/-- Nor does anything exceed it after any events. -/
theorem Within.run (h : s.Within s.largestObserved) (events : List (GossipEvent ν)) :
    (s.run events).Within (s.run events).largestObserved := by
  induction events generalizing s with
  | nil => exact h
  | cons event events ih => exact ih (h.step event)

end Gossip

/-- From default metrics, whatever happens: every estimate of the network size, at every node and in
every message under way, is at least 1 and at most the largest local estimate so far, or 1. And
whatever comes in, `handle_share_metrics` changes a positive estimate by a factor between 0.925 and
1.3. -/
theorem size_estimates_within_observed {ν : Type} [DecidableEq ν] (start : Gossip ν)
    (hstart : start.Fresh) (events : List (GossipEvent ν)) :
    (∀ p, ∃ m, ((start.run events).node p).metrics = some m ∧
      m.SizeWithin (start.run events).largestObserved) ∧
    (∀ r ∈ (start.run events).requests, r.metrics.SizeWithin (start.run events).largestObserved) ∧
    (∀ r ∈ (start.run events).replies, r.metrics.SizeWithin (start.run events).largestObserved) ∧
    ∀ (self : ChordNode) (incoming metrics metrics' : NetworkMetrics),
      self.metrics = some metrics →
      (self.handleShareMetrics incoming).1.metrics = some metrics' →
      0 < metrics.networkSizeEstimate →
      925 / 1000 * metrics.networkSizeEstimate ≤ metrics'.networkSizeEstimate ∧
        metrics'.networkSizeEstimate ≤ 13 / 10 * metrics.networkSizeEstimate := by
  have h := hstart.within.run events
  refine ⟨fun p => ?_, fun r hr => (h.requests r hr).size, fun r hr => (h.replies r hr).size, ?_⟩
  · obtain ⟨m, hm, hsound⟩ := h.node p
    exact ⟨m, hm, hsound.size⟩
  · intro self incoming metrics metrics' hm hm' hpos
    exact handleShareMetrics_factor hm hm' hpos

/-- Two new nodes. -/
def twoFreshNodes : Gossip Bool :=
  ⟨fun _ => ChordNode.new (fun _ => biguintToNodeId 10) "10.0.0.1:8001" "10.0.0.1:80", [], [], []⟩

/-- `size_estimates_within_observed` after one exchange of the two nodes. -/
theorem size_estimates_within_observed_exchange :
    ∃ m, ((twoFreshNodes.run [.update false 0 0, .share false true, .handleRequest 0,
      .handleReply 0]).node false).metrics = some m ∧ 1 ≤ m.networkSizeEstimate := by
  have h := size_estimates_within_observed twoFreshNodes ⟨fun _ => rfl, rfl, rfl, rfl⟩
    [.update false 0 0, .share false true, .handleRequest 0, .handleReply 0]
  obtain ⟨m, hm, hsize⟩ := h.1 false
  exact ⟨m, hm, hsize.1⟩

end TaceChat
