import TaceChat.Library.SingleWrites
import TaceChat.Model.Client
import TaceChat.Proofs.ReadOnly

/-!
# Stores and retries

A store appends, so a client that repeats it after the peer has handled it appends twice. The peer
runs one handler for each attempt that it handles (`PeerRun`), concurrently and with any replies to
its own requests. The first section of the handler appends, and the others only read
(`handleConnection_store`), so each handler adds one copy however they interleave
(`PeerRun.valuesAt`). `callNodeWithRetry_store` counts the appends of a whole call.
-/

set_option autoImplicit false

namespace TaceChat

/-! ### The handlers at the peer -/

/-- The handler of a store appends the value in its first section and then only reads. -/
theorem handleConnection_store (key : NodeId) (value : Value) : ∃ rest : NodeProg Unit,
    rest.Reads ∧ (NodeTask.connection (.store key value)).prog =
      .sect (fun n => n.extendKey key [value]) fun _ => rest := by
  refine ⟨discard (do Concurrent.replicateData key [value]; return some DhtMessage.pong), ?_, rfl⟩
  have hreply : (do Concurrent.replicateData key [value]; return some DhtMessage.pong :
      NodeProg (Option DhtMessage)).Reads :=
    (Concurrent.reads_replicateData key [value]).bind fun _ => trivial
  exact hreply.bind (f := fun _ => pure PUnit.unit) fun _ => trivial

/-- A run of the peer, which starts a handler for each attempt that it handles. The handlers take
their steps in any order, their own requests get any replies, and all of them end. -/
structure PeerRun (key : NodeId) (value : Value) (made : List Attempt) (peer : ChordNode)
    (events : List (PoolEvent NodeTask (Option DhtMessage))) : Prop where
  started : Pool.started events =
    List.replicate (made.countP Attempt.handled) (.connection (.store key value))
  ended : (Pool.run NodeTask.prog ⟨peer, []⟩ events).Ended

/-- The value comes last under its key. -/
theorem valuesAt_extendKey_self (n : ChordNode) (key : NodeId) (value : Value) :
    (n.extendKey key [value]).valuesAt key = n.valuesAt key ++ [value] := by
  simp [ChordNode.valuesAt, ChordNode.extendKey]

/-- Appending changes a node. -/
theorem extendKey_ne_id (peer : ChordNode) (key : NodeId) (value : Value) :
    (fun n : ChordNode => n.extendKey key [value]) ≠ id := by
  intro h
  have hvalues : (peer.extendKey key [value]).valuesAt key = peer.valuesAt key :=
    congrArg (fun f => ChordNode.valuesAt (f peer) key) h
  rw [valuesAt_extendKey_self] at hvalues
  simp at hvalues

/-- One more copy of the value for each append. -/
theorem valuesAt_iterate_extendKey (key : NodeId) (value : Value) (peer : ChordNode) (k : ℕ) :
    ((fun n : ChordNode => n.extendKey key [value])^[k] peer).valuesAt key =
      peer.valuesAt key ++ List.replicate k value := by
  induction k with
  | zero => simp
  | succ k ih =>
    rw [Function.iterate_succ_apply', valuesAt_extendKey_self, ih, List.append_assoc,
      List.replicate_succ']

/-- Each handled attempt adds one copy, whatever became of its response. -/
theorem PeerRun.valuesAt {key : NodeId} {value : Value} {made : List Attempt} {peer : ChordNode}
    {events : List (PoolEvent NodeTask (Option DhtMessage))}
    (h : PeerRun key value made peer events) :
    (Pool.run NodeTask.prog ⟨peer, []⟩ events).state.valuesAt key =
      peer.valuesAt key ++ List.replicate (made.countP Attempt.handled) value := by
  obtain ⟨rest, hreads, hprog⟩ := handleConnection_store key value
  have hstate := Pool.state_of_ended (extendKey_ne_id peer key value) (fun _ => hreads)
    (fun task htask => ?_) h.ended
  · rw [hstate, h.started, List.length_replicate]
    exact valuesAt_iterate_extendKey key value peer _
  · rw [h.started] at htask
    rw [List.eq_of_mem_replicate htask]
    exact hprog

/-- The handlers can always run to their end. -/
theorem exists_peerRun (key : NodeId) (value : Value) (made : List Attempt) (peer : ChordNode) :
    ∃ events, PeerRun key value made peer events := by
  obtain ⟨events, hstarted, hended⟩ := Pool.exists_ended NodeTask.prog peer
    (List.replicate (made.countP Attempt.handled) (.connection (.store key value)))
  exact ⟨events, hstarted, hended⟩

/-! ### The attempts of a call -/

/-- An attempt that succeeds was handled by the peer. -/
theorem handled_of_answered {a : Attempt} (h : (callNodeInternal a).isSome) :
    a.handled = true := by
  refine a.handled_of_response ?_
  -- Only the innermost branch returns a response.
  unfold callNodeInternal at h
  split at h
  · cases h
  · split at h
    · cases h
    · cases h
    · split at h
      · cases h
      · split at h
        · cases h
        · cases h
        · split at h
          · cases h
          · cases h
          · exact h

/-- At most as many attempts are made as are allowed. -/
theorem length_retryLoop (attempts : ℕ → Attempt) (k : ℕ) : ∀ i,
    (retryLoop attempts k i).2.length ≤ k := by
  induction k with
  | zero =>
    intro i
    exact le_rfl
  | succ k ih =>
    intro i
    unfold retryLoop
    cases callNodeInternal (attempts i) with
    | some response => simp
    | none => simpa using ih (i + 1)

/-- When no attempt fails after the peer has handled it, only the last one is handled: the loop ends
with the first attempt that succeeds. -/
theorem countP_handled_le_one (attempts : ℕ → Attempt) (k : ℕ) : ∀ i,
    (∀ a ∈ (retryLoop attempts k i).2, a.handled = true → (callNodeInternal a).isSome) →
      (retryLoop attempts k i).2.countP Attempt.handled ≤ 1 := by
  induction k with
  | zero =>
    intro i _
    exact Nat.zero_le 1
  | succ k ih =>
    intro i h
    unfold retryLoop at h ⊢
    cases hresult : callNodeInternal (attempts i) with
    | some response => exact List.countP_le_length
    | none =>
      simp only [hresult, List.mem_cons] at h ⊢
      -- An attempt that fails was not handled, so the count is that of the rest.
      have hunhandled : ¬(attempts i).handled = true := by
        intro hhandled
        have hanswered := h _ (Or.inl rfl) hhandled
        rw [hresult] at hanswered
        cases hanswered
      rw [List.countP_cons_of_neg hunhandled]
      exact ih (i + 1) fun a ha => h a (Or.inr ha)

/-- A call that succeeds has an attempt that the peer has handled. -/
theorem one_le_countP_handled (attempts : ℕ → Attempt) (k : ℕ) : ∀ i,
    (retryLoop attempts k i).1.isSome →
      1 ≤ (retryLoop attempts k i).2.countP Attempt.handled := by
  induction k with
  | zero =>
    intro i h
    cases h
  | succ k ih =>
    intro i h
    unfold retryLoop at h ⊢
    cases hresult : callNodeInternal (attempts i) with
    | some response =>
      -- The loop has ended here with a response, which only a handler writes.
      have hhandled : (attempts i).handled = true := handled_of_answered (by simp [hresult])
      simp [hhandled]
    | none =>
      simp only [hresult] at h ⊢
      have hrest := ih (i + 1) h
      rw [List.countP_cons]
      exact hrest.trans (Nat.le_add_right _ _)

/-- A store call appends the value at the peer once for each attempt that the peer handles, in every
run of the handlers, and there is such a run. These attempts are at most `MAX_RETRIES`, at most one
when no attempt fails after the peer has handled it, and at least one when the call succeeds. -/
theorem callNodeWithRetry_store (attempts : ℕ → Attempt) (key : NodeId) (value : Value)
    (peer : ChordNode) :
    let (result, made) := callNodeWithRetry attempts
    (∀ events, PeerRun key value made peer events →
        (Pool.run NodeTask.prog ⟨peer, []⟩ events).state.valuesAt key =
          peer.valuesAt key ++ List.replicate (made.countP Attempt.handled) value) ∧
      (∃ events, PeerRun key value made peer events) ∧
      made.countP Attempt.handled ≤ callRetries ∧
      ((∀ a ∈ made, a.handled = true → (callNodeInternal a).isSome) →
        made.countP Attempt.handled ≤ 1) ∧
      (result.isSome → 1 ≤ made.countP Attempt.handled) :=
  ⟨fun _ hrun => hrun.valuesAt, exists_peerRun key value _ peer,
    List.countP_le_length.trans (length_retryLoop attempts callRetries 0),
    countP_handled_le_one attempts callRetries 0, one_le_countP_handled attempts callRetries 0⟩

/-- The first attempt is handled and its response comes too late. The second one succeeds. -/
def lateThenAnswered (i : ℕ) : Attempt :=
  if i = 0 then ⟨true, .done, true, .done, .timedOut, none, true, by simp, by simp⟩
  else ⟨true, .done, true, .done, .done, some .pong, true, by simp, by simp⟩

/-- After such a call the value is there twice, in every run of the two handlers. -/
theorem not_callNodeWithRetry_once :
    ¬∀ (attempts : ℕ → Attempt) (key : NodeId) (value : Value) (peer : ChordNode),
      ∀ events, PeerRun key value (callNodeWithRetry attempts).2 peer events →
        ((Pool.run NodeTask.prog ⟨peer, []⟩ events).state.valuesAt key).length ≤
          (peer.valuesAt key).length + 1 := by
  intro h
  let key : NodeId := Vector.replicate 20 0
  let peer := ChordNode.new (fun _ => key) "10.0.0.1:8001" "10.0.0.1:80"
  obtain ⟨events, hrun⟩ := exists_peerRun key [1] (callNodeWithRetry lateThenAnswered).2 peer
  have honce := h lateThenAnswered key [1] peer events hrun
  have hhandled : (callNodeWithRetry lateThenAnswered).2.countP Attempt.handled = 2 := by decide
  rw [hrun.valuesAt, hhandled, List.length_append, List.length_replicate] at honce
  omega

end TaceChat
