import Mathlib.Algebra.BigOperators.Ring.Finset
import Mathlib.Data.Fintype.BigOperators
import TaceChat.Proofs.SizeEstimates

/-!
# What the metrics exchange averages

`handle_share_metrics` writes the averages of two records. Its one addition that may overflow is
that of the latencies, and the average of one call is what the next call adds to. `Completes` says
of a sequence of messages that no call panics, and `handleShareMetrics_completes_iff` says for which
latencies that is so.

In an exchange the responder averages first, and the initiator averages its own value with the
result. So the responder ends in the middle between the two values and the initiator a quarter of
the way, and the sum of the two changes by a quarter of their difference (`exchange_fields`).
-/

set_option autoImplicit false

namespace TaceChat

/-! ### Latencies -/

/-- The number of nanoseconds from which on a `Duration` does not fit its 64 bits of seconds. -/
def durationLimit : ℕ := 2 ^ 64 * 1000000000

/-- The latencies fit: each, added to what the node holds then, is in the range of a `Duration`. The
node holds half of the sum afterwards. -/
def SumsFit : Duration → List Duration → Prop
  | _, [] => True
  | held, latency :: latencies =>
    held + latency < durationLimit ∧ SumsFit ((held + latency) / 2) latencies

namespace ChordNode

/-- Every call replies and leaves the metrics unpoisoned, one after the other. -/
def Completes : ChordNode → List NetworkMetrics → Prop
  | _, [] => True
  | self, incoming :: messages =>
    (self.handleShareMetrics incoming).2 ≠ none ∧
      (self.handleShareMetrics incoming).1.metrics ≠ none ∧
      Completes (self.handleShareMetrics incoming).1 messages

variable {self : ChordNode} {localMetrics incoming : NetworkMetrics}

/-- An average exists when the sum of the latencies fits. -/
theorem averageMetrics_of_fits
    (h : localMetrics.operationLatency + incoming.operationLatency < durationLimit) :
    ∃ averaged, averageMetrics localMetrics incoming = some averaged ∧
      averaged.operationLatency =
        (localMetrics.operationLatency + incoming.operationLatency) / 2 := by
  have hadd : Duration.checkedAdd localMetrics.operationLatency incoming.operationLatency =
      some (localMetrics.operationLatency + incoming.operationLatency) := if_pos h
  unfold averageMetrics
  rw [hadd]
  exact ⟨_, rfl, rfl⟩

/-- The addition panics otherwise. -/
theorem averageMetrics_of_overflow
    (h : ¬ localMetrics.operationLatency + incoming.operationLatency < durationLimit) :
    averageMetrics localMetrics incoming = none := by
  have hadd : Duration.checkedAdd localMetrics.operationLatency incoming.operationLatency = none :=
    if_neg h
  unfold averageMetrics
  rw [hadd]
  rfl

/-- A node with metrics averages them, or panics. -/
theorem handleShareMetrics_of_some (hlocal : self.metrics = some localMetrics) :
    self.handleShareMetrics incoming =
      ({ self with metrics := averageMetrics localMetrics incoming },
        averageMetrics localMetrics incoming) := by
  rw [handleShareMetrics, hlocal]

/-- For every node and every sequence of `ShareMetrics` messages with any contents: no call of
`handle_share_metrics` panics and the metrics are never poisoned, if and only if the latencies fit.
-/
theorem handleShareMetrics_completes_iff (self : ChordNode) (localMetrics : NetworkMetrics)
    (messages : List NetworkMetrics) (hlocal : self.metrics = some localMetrics) :
    Completes self messages ↔
      SumsFit localMetrics.operationLatency (messages.map NetworkMetrics.operationLatency) := by
  induction messages generalizing self localMetrics with
  | nil => exact Iff.rfl
  | cons incoming messages ih =>
    rw [Completes, List.map_cons, SumsFit, handleShareMetrics_of_some hlocal]
    by_cases hfits : localMetrics.operationLatency + incoming.operationLatency < durationLimit
    · obtain ⟨averaged, haverage, hlatency⟩ := averageMetrics_of_fits hfits
      rw [haverage, ih _ averaged rfl, hlatency]
      simp [hfits]
    · rw [averageMetrics_of_overflow hfits]
      simp [hfits]

end ChordNode

/-- Metrics with the longest latency that a `Duration` can have. -/
def longestLatency : NetworkMetrics :=
  { NetworkMetrics.default with operationLatency := durationLimit - 1 }

/-- `handleShareMetrics_completes_iff` for a new node and one message with the longest latency. -/
theorem handleShareMetrics_completes_iff_once :
    ChordNode.Completes (ChordNode.new (fun _ => biguintToNodeId 10) "10.0.0.1:8001" "10.0.0.1:80")
      [longestLatency] :=
  (ChordNode.handleShareMetrics_completes_iff _ NetworkMetrics.default [longestLatency] rfl).mpr
    ⟨by decide, trivial⟩

/-- The second such message poisons the metrics: half of the longest latency is held by then. -/
theorem not_completes_twice :
    ¬ ChordNode.Completes
      (ChordNode.new (fun _ => biguintToNodeId 10) "10.0.0.1:8001" "10.0.0.1:80")
      [longestLatency, longestLatency] := by
  intro h
  have hpoisoned : (((ChordNode.new (fun _ => biguintToNodeId 10) "10.0.0.1:8001"
      "10.0.0.1:80").handleShareMetrics longestLatency).1.handleShareMetrics longestLatency).2 =
      none := by decide +kernel
  exact h.2.2.1 hpoisoned

/-! ### Exchanges -/

/-- The fields that are averaged without bounds or smoothing. -/
inductive AveragedField
  | nodeChurnRate
  | routingTableHealth
  | operationSuccessRate
  | messageTypeRatio
  | totalNetworkKeysEstimate
  deriving DecidableEq

/-- The field of the metrics. -/
def AveragedField.value : AveragedField → NetworkMetrics → ℚ
  | .nodeChurnRate => NetworkMetrics.nodeChurnRate
  | .routingTableHealth => NetworkMetrics.routingTableHealth
  | .operationSuccessRate => NetworkMetrics.operationSuccessRate
  | .messageTypeRatio => NetworkMetrics.messageTypeRatio
  | .totalNetworkKeysEstimate => NetworkMetrics.totalNetworkKeysEstimate

/-- Each of these fields becomes the mean of the two values. -/
theorem averageMetrics_value {localMetrics incoming averaged : NetworkMetrics}
    (h : ChordNode.averageMetrics localMetrics incoming = some averaged) (f : AveragedField) :
    f.value averaged = (f.value localMetrics + f.value incoming) / 2 := by
  obtain ⟨latency, -, hresult⟩ := Option.bind_eq_some_iff.mp h
  rw [← Option.some.inj hresult]
  cases f <;> rfl

namespace Gossip

variable {ν : Type} [DecidableEq ν] {s : Gossip ν} {p q : ν}

/-- The value of a field at a node. A poisoned lock counts as 0. -/
def value (s : Gossip ν) (f : AveragedField) (p : ν) : ℚ :=
  ((s.node p).metrics.map f.value).getD 0

/-- The exchange is between two nodes, and no handler has panicked, before it or in it. -/
structure CompleteExchange (s : Gossip ν) (p q : ν) : Prop where
  ne : p ≠ q
  initiator : ((s.exchange p q).node p).metrics ≠ none
  responder : ((s.exchange p q).node q).metrics ≠ none

/-- A node with poisoned metrics sends nothing. -/
theorem exchange_of_poisoned (ha : (s.node p).metrics = none) : (s.exchange p q).node = s.node := by
  simp [exchange, run, Gossip.step, ha]

/-- Otherwise the responder handles the metrics of the initiator, and the initiator handles the
reply if there is one. -/
theorem exchange_of_some {a : NetworkMetrics} (ha : (s.node p).metrics = some a) (hne : p ≠ q) :
    (s.exchange p q).node =
      ((s.node q).handleShareMetrics a).2.elim
        (Function.update s.node q ((s.node q).handleShareMetrics a).1)
        (fun reply => Function.update (Function.update s.node q ((s.node q).handleShareMetrics a).1)
          p ((s.node p).handleShareMetrics reply).1) := by
  cases hreply : ((s.node q).handleShareMetrics a).2 with
  | none => simp [exchange, run, Gossip.step, ha, hreply, setNode]
  | some reply => simp [exchange, run, Gossip.step, ha, hreply, setNode, Function.update_of_ne hne]

/-- The nodes after a complete exchange. -/
theorem CompleteExchange.node (h : s.CompleteExchange p q) : ∃ a b r i,
    (s.node p).metrics = some a ∧ (s.node q).metrics = some b ∧
      ChordNode.averageMetrics b a = some r ∧ ChordNode.averageMetrics a r = some i ∧
      (s.exchange p q).node = Function.update
        (Function.update s.node q { s.node q with metrics := some r }) p
        { s.node p with metrics := some i } := by
  have hinitiator := h.initiator
  have hresponder := h.responder
  cases ha : (s.node p).metrics with
  | none =>
    rw [exchange_of_poisoned ha] at hinitiator
    exact absurd ha hinitiator
  | some a =>
    rw [exchange_of_some ha h.ne] at hinitiator hresponder ⊢
    cases hb : (s.node q).metrics with
    | none =>
      -- A poisoned responder sends the metrics back and stays poisoned.
      have hhandle : (s.node q).handleShareMetrics a = (s.node q, some a) := by
        rw [ChordNode.handleShareMetrics, hb]
      rw [hhandle] at hresponder
      simp [Function.update_of_ne (Ne.symm h.ne), hb] at hresponder
    | some b =>
      rw [ChordNode.handleShareMetrics_of_some hb] at hinitiator hresponder ⊢
      cases hr : ChordNode.averageMetrics b a with
      | none => simp [hr] at hresponder
      | some r =>
        cases hi : ChordNode.averageMetrics a r with
        | none => simp [hr, ChordNode.handleShareMetrics_of_some ha, hi] at hinitiator
        | some i =>
          refine ⟨a, b, r, i, rfl, rfl, hr, hi, ?_⟩
          simp [ChordNode.handleShareMetrics_of_some ha, hi]

/-- The responder ends with the mean of the two values, the initiator a quarter of the way from its
own value to that of the responder, and the other nodes with what they had. -/
theorem CompleteExchange.value (h : s.CompleteExchange p q) (f : AveragedField) :
    (s.exchange p q).value f = Function.update
      (Function.update (s.value f) q ((s.value f p + s.value f q) / 2)) p
      ((3 * s.value f p + s.value f q) / 4) := by
  obtain ⟨a, b, r, i, ha, hb, hr, hi, hnode⟩ := h.node
  have hp : s.value f p = f.value a := by rw [Gossip.value, ha]; rfl
  have hq : s.value f q = f.value b := by rw [Gossip.value, hb]; rfl
  funext x
  rw [Gossip.value, hnode, hp, hq]
  by_cases hxp : x = p
  · subst hxp
    simp only [Function.update_self, Option.map_some, Option.getD_some, averageMetrics_value hi,
      averageMetrics_value hr]
    ring
  · by_cases hxq : x = q
    · subst hxq
      simp only [Function.update_of_ne hxp, Function.update_self, Option.map_some,
        Option.getD_some, averageMetrics_value hr]
      ring
    · simp only [Function.update_of_ne hxp, Function.update_of_ne hxq]
      rfl

/-! ### Repeated exchanges -/

/-- Exchanges one after the other, each by its initiator and its responder. -/
def exchanges (s : Gossip ν) (pairs : List (ν × ν)) : Gossip ν :=
  pairs.foldl (fun s pair => s.exchange pair.1 pair.2) s

/-- Every one of the exchanges is complete. -/
def AllComplete : Gossip ν → List (ν × ν) → Prop
  | _, [] => True
  | s, pair :: pairs =>
    s.CompleteExchange pair.1 pair.2 ∧ (s.exchange pair.1 pair.2).AllComplete pairs

/-- A quarter of the difference between initiator and responder, summed over the exchanges. -/
def shift (f : AveragedField) : Gossip ν → List (ν × ν) → ℚ
  | _, [] => 0
  | s, pair :: pairs =>
    (s.value f pair.1 - s.value f pair.2) / 4 + shift f (s.exchange pair.1 pair.2) pairs

/-- No value leaves an interval that holds all values. -/
theorem CompleteExchange.value_mem (h : s.CompleteExchange p q) {f : AveragedField} {low high : ℚ}
    (hs : ∀ x, low ≤ s.value f x ∧ s.value f x ≤ high) (x : ν) :
    low ≤ (s.exchange p q).value f x ∧ (s.exchange p q).value f x ≤ high := by
  obtain ⟨hp, hp'⟩ := hs p
  obtain ⟨hq, hq'⟩ := hs q
  rw [h.value]
  by_cases hxp : x = p
  · rw [hxp, Function.update_self]
    constructor <;> linarith
  · rw [Function.update_of_ne hxp]
    by_cases hxq : x = q
    · rw [hxq, Function.update_self]
      constructor <;> linarith
    · rw [Function.update_of_ne hxq]
      exact hs x

section Sum

variable [Fintype ν]

/-- Only the two nodes of an exchange change the sum over all nodes. -/
theorem CompleteExchange.sum (h : s.CompleteExchange p q) (f : AveragedField) :
    ∑ x, (s.exchange p q).value f x =
      ∑ x, s.value f x + (s.value f p - s.value f q) / 4 := by
  have hq : (q : ν) ∈ Finset.univ.erase p := Finset.mem_erase.mpr ⟨Ne.symm h.ne, Finset.mem_univ q⟩
  have hrest : ∑ x ∈ (Finset.univ.erase p).erase q, (s.exchange p q).value f x =
      ∑ x ∈ (Finset.univ.erase p).erase q, s.value f x := by
    refine Finset.sum_congr rfl fun x hx => ?_
    obtain ⟨hxq, hx⟩ := Finset.mem_erase.mp hx
    rw [h.value, Function.update_of_ne (Finset.ne_of_mem_erase hx), Function.update_of_ne hxq]
  rw [← Finset.add_sum_erase _ _ (Finset.mem_univ p), ← Finset.add_sum_erase _ _ hq, hrest,
    ← Finset.add_sum_erase _ (s.value f) (Finset.mem_univ p),
    ← Finset.add_sum_erase _ (s.value f) hq, h.value, Function.update_self,
    Function.update_of_ne (Ne.symm h.ne), Function.update_self]
  ring

/-- The shifts of the exchanges add up, by induction. -/
theorem sum_exchanges (f : AveragedField) (pairs : List (ν × ν)) :
    ∀ {s : Gossip ν}, s.AllComplete pairs →
      ∑ x, (s.exchanges pairs).value f x = ∑ x, s.value f x + shift f s pairs := by
  induction pairs with
  | nil =>
    intro s _
    show ∑ x, s.value f x = ∑ x, s.value f x + 0
    rw [add_zero]
  | cons pair pairs ih =>
    intro s h
    have hlast : ∑ x, ((s.exchange pair.1 pair.2).exchanges pairs).value f x =
        ∑ x, (s.exchange pair.1 pair.2).value f x + shift f (s.exchange pair.1 pair.2) pairs :=
      ih h.2
    rw [h.1.sum, add_assoc] at hlast
    exact hlast

end Sum

/-- No exchange takes a field out of an interval that holds all its values. -/
theorem value_mem_exchanges {f : AveragedField} {low high : ℚ} (pairs : List (ν × ν)) :
    ∀ {s : Gossip ν}, s.AllComplete pairs → (∀ x, low ≤ s.value f x ∧ s.value f x ≤ high) →
      ∀ x, low ≤ (s.exchanges pairs).value f x ∧ (s.exchanges pairs).value f x ≤ high := by
  induction pairs with
  | nil => exact fun _ hs => hs
  | cons pair pairs ih => exact fun h hs => ih h.2 fun x => h.1.value_mem hs x

end Gossip

/-- In a complete exchange between two nodes, each averaged field of the responder becomes the mean
of the two values, and that of the initiator moves a quarter of the way to the other one. So the sum
of the two changes by a quarter of the difference, and stays the same only if the two values are
equal. Along repeated exchanges among any number of nodes the sum over all nodes changes by these
quarters together, and no value leaves an interval that held all of them. -/
theorem exchange_shifts_sum {ν : Type} [Fintype ν] [DecidableEq ν] (s : Gossip ν)
    (f : AveragedField) :
    (∀ p q, s.CompleteExchange p q →
      (s.exchange p q).value f q = (s.value f p + s.value f q) / 2 ∧
      (s.exchange p q).value f p = (3 * s.value f p + s.value f q) / 4 ∧
      ((s.exchange p q).value f p + (s.exchange p q).value f q = s.value f p + s.value f q ↔
        s.value f p = s.value f q)) ∧
    ∀ pairs, s.AllComplete pairs →
      ∑ x, (s.exchanges pairs).value f x = ∑ x, s.value f x + Gossip.shift f s pairs ∧
      ∀ low high, (∀ x, low ≤ s.value f x ∧ s.value f x ≤ high) →
        ∀ x, low ≤ (s.exchanges pairs).value f x ∧ (s.exchanges pairs).value f x ≤ high := by
  constructor
  · intro p q h
    have hp : (s.exchange p q).value f p = (3 * s.value f p + s.value f q) / 4 := by
      rw [h.value, Function.update_self]
    have hq : (s.exchange p q).value f q = (s.value f p + s.value f q) / 2 := by
      rw [h.value, Function.update_of_ne (Ne.symm h.ne), Function.update_self]
    refine ⟨hq, hp, ?_⟩
    rw [hp, hq]
    constructor
    · intro hsum
      linarith
    · intro heq
      rw [heq]
      ring
  · intro pairs h
    exact ⟨Gossip.sum_exchanges f pairs h, fun low high hs => Gossip.value_mem_exchanges pairs h hs⟩

/-- Two nodes, the first of which has measured a churn rate. -/
def unequalNodes : Gossip Bool :=
  { twoFreshNodes with
    node := fun p =>
      { twoFreshNodes.node p with
        metrics := some { NetworkMetrics.default with nodeChurnRate := if p then 0 else 1 } } }

/-- `exchange_shifts_sum` for two exchanges between these nodes. -/
theorem exchange_shifts_sum_unequal :
    ∑ x, (unequalNodes.exchanges [(false, true), (true, false)]).value .nodeChurnRate x =
      ∑ x, unequalNodes.value .nodeChurnRate x +
        Gossip.shift .nodeChurnRate unequalNodes [(false, true), (true, false)] :=
  ((exchange_shifts_sum unequalNodes .nodeChurnRate).2 [(false, true), (true, false)]
    ⟨⟨by decide, by decide +kernel, by decide +kernel⟩,
      ⟨by decide, by decide +kernel, by decide +kernel⟩, trivial⟩).1

/-- One exchange changes the sum: 1 and 0 become 3/4 and 1/2. -/
theorem exchange_changes_sum : unequalNodes.CompleteExchange false true ∧
    (unequalNodes.exchange false true).value .nodeChurnRate false +
        (unequalNodes.exchange false true).value .nodeChurnRate true ≠
      unequalNodes.value .nodeChurnRate false + unequalNodes.value .nodeChurnRate true :=
  ⟨⟨by decide, by decide +kernel, by decide +kernel⟩, by decide +kernel⟩

end TaceChat
