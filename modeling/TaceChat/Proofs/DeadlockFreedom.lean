import Mathlib.Data.Finset.Insert
import TaceChat.Model.Locks

/-!
# When the mutexes of a node deadlock

`debug_ring_state` takes the predecessor under the guard of the successor. A notification that
updates the predecessor takes the successor under the guard of the predecessor. Any other operation
takes one mutex at a time, except that the update of the local metrics takes others under the guard
of the metrics. So there are two orders: `notifyOrder` fits everything but `debug_ring_state`, and
`debugOrder` fits everything but such notifications. `deadlockFree_iff` says that operations are
free of deadlock exactly when one of the two kinds is missing.
-/

set_option autoImplicit false

namespace TaceChat

open LockPool

/-- The metrics first, and the predecessor before the successor. -/
def notifyOrder : Mutex → ℕ
  | .metrics => 0
  | .predecessor => 1
  | _ => 2

/-- The metrics first, and the successor before the predecessor. -/
def debugOrder : Mutex → ℕ
  | .metrics => 0
  | .successor => 1
  | _ => 2

/-- Without the debug output, every operation takes the predecessor before the successor. -/
theorem ordered_notifyOrder (op : Operation) (h : op ≠ .debugRingState) :
    op.locks.Ordered notifyOrder 0 := by
  cases op with
  | debugRingState => exact absurd rfl h
  | notify updates => cases updates <;> decide
  | _ => decide

/-- Without a notification that updates, every operation takes the successor before the
predecessor. -/
theorem ordered_debugOrder (op : Operation) (h : op ≠ .notify true) :
    op.locks.Ordered debugOrder 0 := by
  cases op with
  | notify updates =>
    cases updates with
    | true => exact absurd rfl h
    | false => decide
  | _ => decide

variable {ι : Type} [DecidableEq ι]

/-- No interleaving of the operations deadlocks, whichever branches they take. -/
def DeadlockFree (op : ι → Operation) : Prop :=
  ∀ trace : ι → List (LockAction Mutex), (∀ i, (op i).locks.Trace (trace i)) →
    ∀ s, (start trace).Reachable s → ∀ tasks, ¬ s.Deadlocked tasks

/-- Operations that fit one order. -/
theorem DeadlockFree.of_ordered {op : ι → Operation} (rank : Mutex → ℕ)
    (h : ∀ i, (op i).locks.Ordered rank 0) : DeadlockFree op := by
  intro trace htrace s hrun tasks
  have hstart : (start trace).Ordered rank := ordered_start htrace h
  exact (hstart.reachable hrun).not_deadlocked tasks

/-- The actions of `debug_ring_state`. -/
def debugTrace : List (LockAction Mutex) :=
  [.acquire .successor, .acquire .predecessor, .release .predecessor, .release .successor]

/-- The actions of a notification that updates the predecessor. -/
def notifyTrace : List (LockAction Mutex) :=
  [.acquire .predecessor, .acquire .successor, .release .successor, .release .predecessor,
    .acquire .data, .release .data]

/-- These are actions of `debug_ring_state`. -/
theorem trace_debugRingState : Operation.debugRingState.locks.Trace debugTrace :=
  .hold (.hold .skip)

/-- These are actions of the notification. -/
theorem trace_notify : (Operation.notify true).locks.Trace notifyTrace :=
  .seq (.hold (.hold .skip)) (.hold .skip)

/-- Two tasks that take the successor and the predecessor in opposite orders deadlock: each takes
its first mutex before the other takes its second one. -/
theorem deadlock_of_traces {trace : ι → List (LockAction Mutex)} {i j : ι} (hij : i ≠ j)
    (hi : trace i = debugTrace) (hj : trace j = notifyTrace) :
    ∃ s, (start trace).Reachable s ∧ s.Deadlocked {i, j} := by
  -- `debug_ring_state` takes the successor.
  let s₁ : LockPool ι Mutex :=
    Function.update (start trace) i ⟨[.successor], debugTrace.tail⟩
  have hrest₁ : (start trace i).rest = .acquire .successor :: debugTrace.tail := hi
  have hstep₁ : (start trace).Step s₁ := .acquire hrest₁ fun k => List.not_mem_nil
  -- The notification takes the predecessor.
  let s₂ : LockPool ι Mutex := Function.update s₁ j ⟨[.predecessor], notifyTrace.tail⟩
  have hj₁ : s₁ j = start trace j := Function.update_of_ne (Ne.symm hij) _ _
  have hrest₂ : (s₁ j).rest = .acquire .predecessor :: notifyTrace.tail := by
    rw [hj₁]
    exact hj
  have hfree₂ : ∀ k, Mutex.predecessor ∉ (s₁ k).held := by
    intro k
    by_cases hki : k = i
    · simp [s₁, hki]
    · simp [s₁, Function.update_of_ne hki, start]
  have hstep₂ : s₁.Step s₂ := by
    have h := Step.acquire hrest₂ hfree₂
    rw [hj₁] at h
    exact h
  -- Now each of them waits for the other.
  have hi₂ : s₂ i = ⟨[.successor], debugTrace.tail⟩ :=
    (Function.update_of_ne hij _ _).trans (Function.update_self _ _ _)
  have hj₂ : s₂ j = ⟨[.predecessor], notifyTrace.tail⟩ := Function.update_self _ _ _
  refine ⟨s₂, (Reachable.refl.step hstep₁).step hstep₂, ⟨i, by simp⟩, fun k hk => ?_⟩
  have hk' : k = i ∨ k = j := by simpa using hk
  cases hk' with
  | inl h =>
    subst h
    exact ⟨j, by simp, Ne.symm hij, .predecessor, _, by rw [hi₂]; rfl, by simp [hj₂]⟩
  | inr h =>
    subst h
    exact ⟨i, by simp, hij, .successor, _, by rw [hj₂]; rfl, by simp [hi₂]⟩

/-- Operations never deadlock exactly when they do not have both a `debug_ring_state` and a
notification that updates the predecessor. -/
theorem deadlockFree_iff (op : ι → Operation) :
    DeadlockFree op ↔ ¬ ((∃ i, op i = .debugRingState) ∧ ∃ j, op j = .notify true) := by
  constructor
  · intro hfree hboth
    obtain ⟨⟨i, hi⟩, j, hj⟩ := hboth
    -- The two tasks are different, because they run different operations.
    have hij : i ≠ j := by
      intro heq
      rw [heq, hj] at hi
      cases hi
    -- The two tasks take their only executions, the others take any.
    have htrace : ∀ k, ∃ t, (op k).locks.Trace t ∧ (k = i → t = debugTrace) ∧
        (k = j → t = notifyTrace) := by
      intro k
      by_cases hki : k = i
      · subst hki
        exact ⟨debugTrace, hi ▸ trace_debugRingState, fun _ => rfl, fun h => absurd h hij⟩
      · by_cases hkj : k = j
        · subst hkj
          exact ⟨notifyTrace, hj ▸ trace_notify, fun h => absurd h hki, fun _ => rfl⟩
        · obtain ⟨t, ht⟩ := (op k).locks.exists_trace
          exact ⟨t, ht, fun h => absurd h hki, fun h => absurd h hkj⟩
    choose trace hops hdebug hnotify using htrace
    obtain ⟨s, hrun, hdead⟩ := deadlock_of_traces hij (hdebug i rfl) (hnotify j rfl)
    exact hfree trace hops s hrun _ hdead
  · intro hmissing
    by_cases hdebug : ∃ i, op i = .debugRingState
    · -- Without such a notification every task fits the other order.
      have hnotify : ∀ j, op j ≠ .notify true := fun j hj => hmissing ⟨hdebug, j, hj⟩
      exact .of_ordered debugOrder fun j => ordered_debugOrder _ (hnotify j)
    · have hdebug : ∀ i, op i ≠ .debugRingState := fun i hi => hdebug ⟨i, hi⟩
      exact .of_ordered notifyOrder fun i => ordered_notifyOrder _ (hdebug i)

/-- A `debug_ring_state` and a notification that updates the predecessor can deadlock. -/
theorem not_deadlockFree :
    ¬ DeadlockFree fun debug : Bool => if debug then .debugRingState else .notify true := by
  intro hfree
  have htraces : ∀ debug : Bool, (if debug then Operation.debugRingState
      else .notify true).locks.Trace (if debug then debugTrace else notifyTrace) := by
    intro debug
    cases debug with
    | true => exact trace_debugRingState
    | false => exact trace_notify
  have hne : true ≠ false := by decide
  let trace : Bool → List (LockAction Mutex) := fun debug =>
    if debug then debugTrace else notifyTrace
  have hdebug : trace true = debugTrace := rfl
  have hnotify : trace false = notifyTrace := rfl
  obtain ⟨s, hrun, hdead⟩ := deadlock_of_traces hne hdebug hnotify
  exact hfree _ htraces s hrun _ hdead

end TaceChat
