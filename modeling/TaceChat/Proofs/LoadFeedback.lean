import Mathlib.Order.Iterate
import Mathlib.Tactic.Linarith
import TaceChat.Library.Traces
import TaceChat.Model.Load
import TaceChat.Proofs.IdNetwork
import TaceChat.Proofs.ReadOnly

/-!
# The load that feeds on itself

`calculate_current_load` adds `cpu_usage_percent` to what it measures, and `check_and_rebalance`
writes the result there. So the next load is what is measured plus the load before, capped at 1:
each call applies `nextLoad` to the load of the call before (`Calls.load`). The load stays the same
only where `nextLoad` has a fixed point, which `load_stable_iff` spells out.

A call is a `Prog.Trace` of the program of `check_and_rebalance`. Other tasks may run before each of
its sections, as long as they leave the number of keys and the measured metrics alone.
-/

set_option autoImplicit false

namespace TaceChat

open Prog

/-! ### What is measured -/

namespace ChordNode

/-- The metrics that the load is computed from: the usage of the processor and of the memory, and
the request rate. -/
def measured (n : ChordNode) : Option (ℚ × ℚ × ℚ) :=
  n.metrics.map fun m => (m.cpuUsagePercent, m.memoryUsagePercent, m.requestRatePerSecond)

/-- The load that `calculate_current_load` returns when the number of keys and the metrics do not
change between its sections. -/
def loadNow (n : ChordNode) (connections : ℕ) : ℚ :=
  currentLoad n.data.keys.length connections n.metricsLoad

/-- The load without the share of the processor. -/
def baseLoad (n : ChordNode) (connections : ℕ) (memory requestRate : ℚ) : ℚ :=
  n.data.keys.length * (1 / 1000) + connections / maxConnections + memory / 100 +
    requestRate * (1 / 100)

/-- The load that the three measured metrics make. -/
theorem metricsLoad_of_measured {n : ChordNode} {cpu memory requestRate : ℚ}
    (h : n.measured = some (cpu, memory, requestRate)) :
    n.metricsLoad = cpu / 100 + memory / 100 + requestRate * (1 / 100) := by
  obtain ⟨m, hm, heq⟩ := Option.map_eq_some_iff.mp h
  cases heq
  rw [metricsLoad, hm]

/-- The load is the base load and the usage of the processor, capped at 1. -/
theorem loadNow_of_measured {n : ChordNode} {connections : ℕ} {cpu memory requestRate : ℚ}
    (h : n.measured = some (cpu, memory, requestRate)) :
    n.loadNow connections = min (n.baseLoad connections memory requestRate + cpu / 100) 1 := by
  rw [loadNow, metricsLoad_of_measured h, currentLoad, baseLoad]
  congr 1
  ring

/-- The load depends on what is measured and the number of keys. -/
theorem loadNow_congr {n n' : ChordNode} {connections : ℕ}
    (hkeys : n'.data.keys.length = n.data.keys.length) (hmeasured : n'.measured = n.measured) :
    n'.loadNow connections = n.loadNow connections := by
  have hload : n'.metricsLoad = n.metricsLoad := by
    unfold measured at hmeasured
    unfold metricsLoad
    cases hm : n.metrics with
    | none =>
      rw [hm, Option.map_none, Option.map_eq_none_iff] at hmeasured
      rw [hmeasured]
    | some m =>
      rw [hm, Option.map_some, Option.map_eq_some_iff] at hmeasured
      obtain ⟨m', hm', heq⟩ := hmeasured
      simp only [Prod.mk.injEq] at heq
      simp only [hm', heq.1, heq.2.1, heq.2.2]
  rw [loadNow, loadNow, hkeys, hload]

end ChordNode

/-! ### One call -/

/-- The measured metrics and the load that the node has recorded for itself are as before. -/
structure SameLoads (n n' : ChordNode) : Prop where
  info : n'.info = n.info
  measured : n'.measured = n.measured
  recorded : n'.nodeLoads n'.info.id = n.nodeLoads n.info.id

/-- The node as it is. -/
theorem SameLoads.refl (n : ChordNode) : SameLoads n n := ⟨rfl, rfl, rfl⟩

/-- One change after another. -/
theorem SameLoads.trans {n n' n'' : ChordNode} (h : SameLoads n n') (h' : SameLoads n' n'') :
    SameLoads n n'' :=
  ⟨h'.info.trans h.info, h'.measured.trans h.measured, h'.recorded.trans h.recorded⟩

/-- What other tasks may do meanwhile: anything but changing the number of keys, the measured
metrics and the recorded load. -/
structure Undisturbed (n n' : ChordNode) : Prop extends SameLoads n n' where
  keys : n'.data.keys.length = n.data.keys.length

/-- Nothing happens meanwhile. -/
theorem Undisturbed.refl (n : ChordNode) : Undisturbed n n := ⟨.refl n, rfl⟩

/-- The balancing moves data, and nothing else. -/
theorem rebalanceData_spec :
    Spec (fun _ => True) SameLoads Concurrent.rebalanceData fun _ => True := by
  have hread {α : Type} {p : NodeProg α} (hp : p.Reads) :
      Spec (fun _ => True) SameLoads p fun _ => True := hp.spec SameLoads.refl
  refine Spec.read_next SameLoads.refl fun self _ => Spec.forM fun key _ => ?_
  refine (hread (Concurrent.reads_getReplicaNodes key)).next fun replicaNodes => ?_
  refine Spec.read_next SameLoads.refl fun now _ => ?_
  split
  · trivial
  · refine Spec.atomic_next fun before _ => ⟨trivial, ⟨rfl, rfl, rfl⟩, ?_⟩
    split
    · trivial
    · refine Spec.forM fun value _ => Spec.ask_next fun r => ?_
      cases r with
      | some _ => trivial
      | none => exact fun n _ => ⟨trivial, ⟨rfl, rfl, rfl⟩, trivial⟩

/-- A call of `check_and_rebalance` leads from one state to the other and leaves the number of keys.
-/
structure Call (connections : ℕ) (n n' : ChordNode) : Prop where
  trace : ∃ reqs,
    Trace Undisturbed (Concurrent.checkAndRebalance connections connections) n reqs () n'
  keys : n'.data.keys.length = n.data.keys.length

/-- A call records the load and publishes it as the usage of the processor. -/
theorem Call.load {connections : ℕ} {n n' : ChordNode} (h : Call connections n n') :
    n'.nodeLoads n'.info.id = some (n.loadNow connections) ∧
      n'.measured = n.measured.map fun m => (n.loadNow connections * 100, m.2) := by
  obtain ⟨reqs, t⟩ := h.trace
  obtain ⟨reqs₁, reqs₂, load, s, -, tload, t⟩ := t.of_bind Undisturbed.refl
  -- The number of keys is read in one section and the metrics in the next one.
  obtain ⟨s₁, h₁, tload⟩ := tload.of_read_next
  obtain ⟨s₂, h₂, tload⟩ := tload.of_read_next
  obtain ⟨-, rfl, h₃⟩ := Trace.of_done tload
  have hload : ChordNode.currentLoad s₁.data.keys.length connections s₂.metricsLoad =
      n.loadNow connections := by
    rw [h₁.keys]
    have hkeys : s₂.data.keys.length = n.data.keys.length := h₂.keys.trans h₁.keys
    rw [← ChordNode.loadNow_congr hkeys (h₂.measured.trans h₁.measured), ChordNode.loadNow, hkeys]
  rw [hload] at t
  obtain ⟨s₄, h₄, t⟩ := t.of_write_next
  obtain ⟨s₅, h₅, t⟩ := t.of_write_next
  have hrest : SameLoads (s₅.publishLoad (n.loadNow connections) connections) n' := by
    have hspec : Spec (fun _ => True) SameLoads
        (if loadBalanceThreshold < n.loadNow connections then Concurrent.rebalanceData
          else return ()) fun _ => True := by
      split
      · exact rebalanceData_spec
      · trivial
    have hothers : ∀ s s', Undisturbed s s' → True → True ∧ SameLoads s s' :=
      fun _ _ hothers _ => ⟨trivial, hothers.toSameLoads⟩
    exact (hspec.trace (fun _ _ _ h h' => h.trans h') hothers t trivial).2.1
  have hmeasured : s₅.measured = n.measured :=
    h₅.measured.trans (h₄.measured.trans (h₃.measured.trans (h₂.measured.trans h₁.measured)))
  constructor
  · rw [hrest.recorded]
    refine h₅.recorded.trans ?_
    exact if_pos rfl
  · rw [hrest.measured, ← hmeasured]
    show Option.map _ (Option.map _ s₅.metrics) = Option.map _ (Option.map _ s₅.metrics)
    rw [Option.map_map, Option.map_map]
    rfl

/-! ### Calls in a row -/

/-- A number of calls, one after the other. Other tasks may run between them. -/
inductive Calls (connections : ℕ) : ℕ → ChordNode → ChordNode → Prop
  | zero (n : ChordNode) : Calls connections 0 n n
  | succ {k : ℕ} {n n' n'' : ChordNode} (h : Calls connections k n n')
      (hlast : Call connections n' n'') : Calls connections (k + 1) n n''

/-- The load after a call, from the load of the call before. -/
def nextLoad (base load : ℚ) : ℚ := min (base + load) 1

/-- More load before is more load after. -/
theorem nextLoad_mono (base : ℚ) : Monotone (nextLoad base) :=
  fun _ _ h => min_le_min_right 1 (by linarith)

/-- Where the loads of further calls stay at the first one. -/
theorem iterate_nextLoad {base load : ℚ} {k : ℕ} (hk : 0 < k) :
    (nextLoad base)^[k] load = load ↔ nextLoad base load = load := by
  have h := Function.Commute.iterate_pos_eq_iff_map_eq
    (Function.Commute.id_right (f := nextLoad base)) (nextLoad_mono base) strictMono_id
    (x := load) hk
  rwa [Function.iterate_id, id] at h

/-- The loads of the calls after the first one. -/
theorem Calls.load {connections k : ℕ} {n n' : ChordNode} {load memory requestRate : ℚ}
    (h : Calls connections k n n') (hrecorded : n.nodeLoads n.info.id = some load)
    (hmeasured : n.measured = some (load * 100, memory, requestRate)) :
    n'.data.keys.length = n.data.keys.length ∧
      n'.nodeLoads n'.info.id =
        some ((nextLoad (n.baseLoad connections memory requestRate))^[k] load) ∧
      n'.measured = some ((nextLoad (n.baseLoad connections memory requestRate))^[k] load * 100,
        memory, requestRate) := by
  induction h with
  | zero n => exact ⟨rfl, hrecorded, hmeasured⟩
  | @succ k n n' n'' h hlast ih =>
    obtain ⟨hkeys, -, hmeasured'⟩ := ih hrecorded hmeasured
    obtain ⟨hrecorded'', hmeasured''⟩ := hlast.load
    have hnext : n'.loadNow connections =
        (nextLoad (n.baseLoad connections memory requestRate))^[k + 1] load := by
      rw [ChordNode.loadNow_of_measured hmeasured', ChordNode.baseLoad, hkeys,
        Function.iterate_succ_apply', nextLoad,
        mul_div_cancel_right₀ _ (by norm_num : (100 : ℚ) ≠ 0)]
      rfl
    rw [hnext] at hrecorded'' hmeasured''
    refine ⟨hlast.keys.trans hkeys, hrecorded'', ?_⟩
    rw [hmeasured'', hmeasured']
    rfl

/-- With poisoned metrics there is nothing to feed back. -/
theorem Calls.load_of_poisoned {connections k : ℕ} {n n' : ChordNode} {load : ℚ}
    (h : Calls connections k n n') (hrecorded : n.nodeLoads n.info.id = some load)
    (hload : n.loadNow connections = load) (hmeasured : n.measured = none) :
    n'.nodeLoads n'.info.id = some load ∧ n'.loadNow connections = load ∧ n'.measured = none := by
  induction h with
  | zero n => exact ⟨hrecorded, hload, hmeasured⟩
  | @succ k n n' n'' h hlast ih =>
    obtain ⟨-, hload', hmeasured'⟩ := ih hrecorded hload hmeasured
    obtain ⟨hrecorded'', hmeasured''⟩ := hlast.load
    rw [hmeasured', Option.map_none] at hmeasured''
    rw [hload'] at hrecorded''
    refine ⟨hrecorded'', ?_, hmeasured''⟩
    rw [ChordNode.loadNow_congr hlast.keys (hmeasured''.trans hmeasured'.symm), hload']

/-- What is measured beside the usage of the processor adds nothing, or it adds something and the
first load is capped. Poisoned metrics are not read. -/
def FeedsNothingBack (connections : ℕ) (n : ChordNode) : Prop :=
  ∀ cpu memory requestRate, n.measured = some (cpu, memory, requestRate) →
    n.baseLoad connections memory requestRate = 0 ∨
      0 < n.baseLoad connections memory requestRate ∧
        1 ≤ n.baseLoad connections memory requestRate + cpu / 100

/-- The fixed points of the load. -/
theorem nextLoad_eq_self_iff {base share : ℚ} :
    nextLoad base (min (base + share) 1) = min (base + share) 1 ↔
      base = 0 ∨ 0 < base ∧ 1 ≤ base + share := by
  unfold nextLoad
  constructor
  · intro h
    rcases lt_trichotomy base 0 with hneg | hzero | hpos
    · have hle := min_le_left (base + min (base + share) 1) 1
      linarith
    · exact Or.inl hzero
    · refine Or.inr ⟨hpos, ?_⟩
      by_contra hlt
      rw [min_eq_left (by linarith : base + share ≤ 1)] at h
      rcases min_choice (base + (base + share)) 1 with h1 | h1 <;> linarith
  · rintro (rfl | ⟨hpos, hle⟩)
    · rw [zero_add, min_eq_left (min_le_right _ 1)]
    · rw [min_eq_right hle, min_eq_right (by linarith)]

/-- Let a node make one call of `check_and_rebalance` and then `k` more, while the number of keys,
the open connections, the memory usage and the request rate do not change. The load that is recorded
for the node and the published usage of the processor are the same after the last call as after the
first, if and only if there were no more calls or nothing is fed back. -/
theorem load_stable_iff (connections k : ℕ) (n first last : ChordNode)
    (hfirst : Call connections n first) (hmore : Calls connections k first last) :
    last.nodeLoads last.info.id = first.nodeLoads first.info.id ∧
        last.metrics.map NetworkMetrics.cpuUsagePercent =
          first.metrics.map NetworkMetrics.cpuUsagePercent ↔
      k = 0 ∨ FeedsNothingBack connections n := by
  obtain ⟨hrecorded, hmeasured⟩ := hfirst.load
  have hcpu : ∀ n : ChordNode, n.metrics.map NetworkMetrics.cpuUsagePercent =
      n.measured.map Prod.fst := by
    intro n
    rw [ChordNode.measured, Option.map_map]
    rfl
  rw [hcpu, hcpu]
  cases hn : n.measured with
  | none =>
    rw [hn, Option.map_none] at hmeasured
    have hload : first.loadNow connections = n.loadNow connections :=
      ChordNode.loadNow_congr hfirst.keys (hmeasured.trans hn.symm)
    obtain ⟨hrecorded', -, hmeasured'⟩ := hmore.load_of_poisoned hrecorded hload hmeasured
    refine iff_of_true ⟨hrecorded'.trans hrecorded.symm, by rw [hmeasured', hmeasured]⟩ (Or.inr ?_)
    intro cpu memory requestRate h
    cases hn.symm.trans h
  | some m =>
    obtain ⟨cpu, memory, requestRate⟩ := m
    rw [hn, Option.map_some] at hmeasured
    obtain ⟨-, hrecorded', hmeasured'⟩ := hmore.load hrecorded hmeasured
    have hbase : first.baseLoad connections memory requestRate =
        n.baseLoad connections memory requestRate := by
      rw [ChordNode.baseLoad, ChordNode.baseLoad, hfirst.keys]
    have hcondition : FeedsNothingBack connections n ↔
        nextLoad (n.baseLoad connections memory requestRate) (n.loadNow connections) =
          n.loadNow connections := by
      rw [ChordNode.loadNow_of_measured hn, nextLoad_eq_self_iff]
      constructor
      · intro h
        exact h cpu memory requestRate hn
      · intro h cpu' memory' requestRate' h'
        cases hn.symm.trans h'
        exact h
    rw [hcondition, hrecorded, hrecorded', hmeasured, hmeasured', hbase]
    rcases Nat.eq_zero_or_pos k with rfl | hk
    · exact iff_of_true ⟨rfl, rfl⟩ (Or.inl rfl)
    · rw [← iterate_nextLoad hk]
      constructor
      · intro h
        exact Or.inr (Option.some.inj h.1)
      · rintro (h0 | h)
        · omega
        · rw [h]
          exact ⟨rfl, rfl⟩

/-- The state after a call without other tasks, at a node without data. -/
def ChordNode.afterCall (n : ChordNode) (connections : ℕ) : ChordNode :=
  (n.updateNodeLoad n.info.id (n.loadNow connections)).publishLoad (n.loadNow connections)
    connections

/-- Where there are no keys, the balancing reads that, and does nothing. -/
theorem trace_rebalanceData {n : ChordNode} (hdata : n.data.keys = []) :
    Trace Undisturbed Concurrent.rebalanceData n [] () n := by
  refine .sect (.refl n) ?_
  show Trace Undisturbed (forM (n.data.keys.take 10) Concurrent.rebalanceKey) n [] () n
  rw [hdata]
  exact .done (.refl n)

/-- A call at a node without keys moves nothing. -/
theorem call_afterCall {connections : ℕ} {n : ChordNode} (hdata : n.data.keys = []) :
    Call connections n (n.afterCall connections) := by
  refine ⟨⟨[], .sect (.refl n) (.sect (.refl n) (.sect (.refl n) (.sect (.refl _) ?_)))⟩, rfl⟩
  show Trace Undisturbed
    (if loadBalanceThreshold < n.loadNow connections then Concurrent.rebalanceData else return ())
    (n.afterCall connections) [] () (n.afterCall connections)
  split
  · exact trace_rebalanceData hdata
  · exact .done (.refl _)

/-- A node without data that has measured nothing yet. -/
def idleNode : ChordNode := linkedNode id (fun _ => none) (biguintToNodeId 10)

/-- `load_stable_iff` for this node with a hundred connections, whose first load is capped. -/
theorem load_stable_iff_capped :
    ((idleNode.afterCall 100).afterCall 100).nodeLoads idleNode.info.id =
        (idleNode.afterCall 100).nodeLoads idleNode.info.id ∧
      ((idleNode.afterCall 100).afterCall 100).metrics.map NetworkMetrics.cpuUsagePercent =
        (idleNode.afterCall 100).metrics.map NetworkMetrics.cpuUsagePercent := by
  have hfirst : Call 100 idleNode (idleNode.afterCall 100) := call_afterCall rfl
  have hmore : Calls 100 1 (idleNode.afterCall 100) ((idleNode.afterCall 100).afterCall 100) :=
    .succ (.zero _) (call_afterCall rfl)
  refine (load_stable_iff 100 1 _ _ _ hfirst hmore).mpr (Or.inr ?_)
  rintro cpu memory requestRate ⟨⟩
  exact Or.inr (by decide +kernel)

/-- Ten connections are a load of 0.1 in the first call and of 0.2 in the second one. -/
theorem load_grows :
    Call 10 idleNode (idleNode.afterCall 10) ∧
      Calls 10 1 (idleNode.afterCall 10) ((idleNode.afterCall 10).afterCall 10) ∧
      (idleNode.afterCall 10).nodeLoads idleNode.info.id = some (1 / 10) ∧
      ((idleNode.afterCall 10).afterCall 10).nodeLoads idleNode.info.id = some (2 / 10) ∧
      ((idleNode.afterCall 10).afterCall 10).metrics.map NetworkMetrics.cpuUsagePercent ≠
        (idleNode.afterCall 10).metrics.map NetworkMetrics.cpuUsagePercent :=
  ⟨call_afterCall rfl, .succ (.zero _) (call_afterCall rfl), by decide +kernel, by decide +kernel,
    by decide +kernel⟩

end TaceChat
