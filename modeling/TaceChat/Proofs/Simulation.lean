import TaceChat.Proofs.Convergence
import TaceChat.Proofs.JoinHeals
import TaceChat.Proofs.Replicas

/-!
# Operations as interleaved steps

`stabilize` and `join` of `Model.Maintenance` run to their end in a network, and move data, fingers
and successor lists besides the pointers. `RingState.Run` cuts them into steps on the pointers
alone. Here each operation that runs to its end in a reliable network is shown to be a run of those
steps: the pointers after it are those of a state that the steps reach. So what is proved of every
order of the steps holds of the code that `Model.Maintenance` translates.

`Network.stabilized` is what a stabilization does to the pointers
(`RingInvariant.returns_stabilize`), and the steps do the same (`exists_run`). `ChordNode.Agrees`
compares a node of the one model with a node of the other.
-/

set_option autoImplicit false

namespace TaceChat

open IdCircle Network

/-- The nodes have the same info, successor and predecessor. -/
structure ChordNode.Agrees (n m : ChordNode) : Prop where
  info : n.info = m.info
  successor : n.successor = m.successor
  predecessor : n.predecessor = m.predecessor

namespace ChordNode

variable {n m o : ChordNode}

/-- One agreement after another. -/
theorem Agrees.trans (h : n.Agrees m) (h' : m.Agrees o) : n.Agrees o :=
  ⟨h.info.trans h'.info, h.successor.trans h'.successor, h.predecessor.trans h'.predecessor⟩

/-- Nodes that agree adopt the same successor. -/
theorem Agrees.adoptSuccessor (h : n.Agrees m) (a x : NodeInfo) :
    (n.adoptSuccessor a x).Agrees (m.adoptSuccessor a x) := by
  unfold ChordNode.adoptSuccessor
  rw [h.info]
  split
  · exact ⟨rfl, rfl, h.predecessor⟩
  · exact h

/-- Nodes that agree do the same with an answer. -/
theorem Agrees.afterAnswer (h : n.Agrees m) (x : Option NodeInfo) :
    (n.afterAnswer x).Agrees (m.afterAnswer x) := by
  cases x with
  | none => exact h
  | some x =>
    show (n.adoptSuccessor n.successor x).Agrees (m.adoptSuccessor m.successor x)
    rw [h.successor]
    exact h.adoptSuccessor _ x

/-- Nodes that agree handle a notification in the same way. -/
theorem Agrees.handleNotify (h : n.Agrees m) (x : NodeInfo) :
    (RingState.handleNotify n x).Agrees (RingState.handleNotify m x) := by
  unfold RingState.handleNotify
  rw [h.info]
  split
  · exact h
  · -- Both nodes accept the notification, or neither does.
    have hpred := h.predecessor
    unfold notifyUpdate
    cases hp : m.predecessor with
    | none =>
      rw [hpred.trans hp]
      exact ⟨h.info, by simp [h.info, h.successor], rfl⟩
    | some p =>
      rw [hpred.trans hp]
      by_cases hbetween : isBetween x.id p.id m.info.id = true
      · simp only [h.info, hbetween, if_true, Option.getD_some]
        exact ⟨rfl, by rw [h.successor], rfl⟩
      · simp only [h.info, hbetween]
        exact h

end ChordNode

namespace Network

variable {φ : Type} {net net' : Network φ} {a : String}

/-- The same pointers agree at every address. -/
theorem SamePointers.agrees (h : SamePointers net net') (a : String) :
    (net.node a).Agrees (net'.node a) :=
  ⟨(h.info a).symm, (h.successor a).symm, (h.predecessor a).symm⟩

/-- The pointers after a stabilization of the node at `a`. -/
def stabilized (a : String) (net : Network φ) : Network φ :=
  if (net.node a).info.id = (net.node a).successor.id then
    net.setNode a { net.node a with predecessor := none }
  else (net.answered a).notified a

/-- A stabilization changes no info. -/
theorem stabilized_info (a : String) (net : Network φ) :
    (net.stabilized a).listening = net.listening ∧
      ∀ b, ((net.stabilized a).node b).info = (net.node b).info := by
  unfold stabilized
  split
  · refine ⟨rfl, fun b => ?_⟩
    by_cases hb : b = a
    · rw [hb, setNode_node_self]
    · rw [setNode_node_of_ne hb]
  · obtain ⟨hlisten, hinfo⟩ := notified_info a (net.answered a)
    exact ⟨hlisten, fun b => (hinfo b).trans (answered_info b)⟩

/-- The notification of `stabilize`, as the handler of the interleaved steps. -/
theorem notified_eq (a : String) (net : Network φ) :
    net.notified a = net.setNode (net.node a).successor.address
      (RingState.handleNotify (net.node (net.node a).successor.address) (net.node a).info) := by
  unfold RingState.handleNotify
  by_cases hself : (net.node a).info.id = (net.node (net.node a).successor.address).info.id
  · rw [notified_refused (Or.inl hself), if_pos hself, setNode_same]
  · cases hupdate : (net.node (net.node a).successor.address).notifyUpdate (net.node a).info with
    | none => rw [notified_refused (Or.inr hupdate), if_neg hself, Option.getD_none, setNode_same]
    | some updated => rw [notified_accepted hself hupdate, if_neg hself, Option.getD_some]

end Network

namespace RingState

variable {s : RingState} {net : Network Unit} {a : String} {n m : ChordNode}

/-- The nodes of the interleaved state have the pointers of the network. -/
def Agrees (s : RingState) (net : Network Unit) : Prop :=
  ∀ a, (s.node a).Agrees (net.node a)

/-- Nodes that agree are written on both sides. -/
theorem Agrees.setNode (h : s.Agrees net) (hn : n.Agrees m) :
    (s.setNode a n).Agrees (net.setNode a m) := by
  intro b
  by_cases hb : b = a
  · rw [hb, setNode_node_self, Network.setNode_node_self]
    exact hn
  · rw [setNode_node_of_ne hb, Network.setNode_node_of_ne hb]
    exact h b

/-- Data and tables do not matter to the steps. -/
theorem Agrees.samePointers {net' : Network Unit} (h : s.Agrees net)
    (hsame : SamePointers net net') : s.Agrees net' :=
  fun a => (h a).trans (hsame.agrees a)

end RingState

namespace Directory

variable {D : Directory} {s r : RingState} {f i j : NodeId} {net : Network Unit} {depth : ℕ}

/-- A node rests, and the other nodes are where they were. -/
def RestsAfter (a : String) (s r : RingState) : Prop :=
  r.task = Function.update s.task a .idle

/-- A stabilization of a node that is alone. -/
theorem run_alone {a : String} (hself : (s.node a).info.id = (s.node a).successor.id)
    (hidle : s.task a = .idle) :
    ∃ ended r, s.Run ended r ∧ a ∈ ended ∧ RestsAfter a s r ∧
      ∀ net, s.Agrees net → r.Agrees (net.setNode a { net.node a with predecessor := none }) := by
  have hread := RingState.Step.readSuccessor hidle
  rw [if_pos hself] at hread
  have hclear := RingState.Step.clearPredecessor (RingState.setTask_task_self a .clearing s)
  refine ⟨_, _, (RingState.Run.refl.step hread).step hclear, Or.inr ⟨?_, ?_⟩, ?_,
    fun net hagrees => ?_⟩
  · exact Or.inr (RingState.setTask_task_self _ _ _)
  · exact RingState.setTask_task_self _ _ _
  · show Function.update (Function.update s.task _ _) _ _ = _
    rw [Function.update_idem]
  · exact RingState.Agrees.setNode hagrees ⟨(hagrees a).info, (hagrees a).successor, rfl⟩

/-- The write of the successor, as `afterAnswer` of the node. -/
theorem step_written {a : String} {x : Option NodeInfo}
    (h : s.task a = .answered (s.node a).successor x) :
    s.Step ((s.setNode a ((s.node a).afterAnswer x)).setTask a .written) := by
  cases x with
  | none => exact .writeSuccessor h
  | some x => exact .writeSuccessor h

/-- The first half of a stabilization, up to the write of the successor. -/
theorem run_answered {a : String} (hne : (s.node a).info.id ≠ (s.node a).successor.id)
    (hidle : s.task a = .idle) :
    ∃ ended r, s.Run ended r ∧ r.task = Function.update s.task a .written ∧
      ∀ net, s.Agrees net → r.Agrees (net.answered a) := by
  have hread := RingState.Step.readSuccessor hidle
  rw [if_neg hne] at hread
  have hask := RingState.Step.handleGetPredecessor
    (RingState.setTask_task_self a (.asking (s.node a).successor) s)
  have hwrite := step_written (s := (s.setTask a (.asking (s.node a).successor)).setTask a
    (.answered (s.node a).successor (s.node (s.node a).successor.address).predecessor))
    (RingState.setTask_task_self a _ _)
  refine ⟨_, _, ((RingState.Run.refl.step hread).step hask).step hwrite, ?_, fun net hagrees => ?_⟩
  · show Function.update (Function.update (Function.update s.task _ _) _ _) _ _ = _
    rw [Function.update_idem, Function.update_idem]
  · have hpred := (hagrees (s.node a).successor.address).predecessor
    rw [answered, ← (hagrees a).successor, ← hpred]
    exact RingState.Agrees.setNode hagrees ((hagrees a).afterAnswer _)

/-- The second half: the notification, and the new successor list. -/
theorem run_notified {a : String} (hwritten : s.task a = .written) :
    ∃ ended r, s.Run ended r ∧ a ∈ ended ∧ RestsAfter a s r ∧
      ∀ net, s.Agrees net → r.Agrees (net.notified a) := by
  have hsend := RingState.Step.sendNotify hwritten
  have hreceive := RingState.Step.receiveNotify
    (RingState.setTask_task_self a (.notifying (s.node a).successor) s)
  have hfinish := RingState.Step.finish (s.node a).successorList
    (RingState.setTask_task_self a .notified
      ((s.setTask a (.notifying (s.node a).successor)).setNode (s.node a).successor.address
        (RingState.handleNotify (s.node (s.node a).successor.address) (s.node a).info)))
  refine ⟨_, _, ((RingState.Run.refl.step hsend).step hreceive).step hfinish, Or.inr ⟨?_, ?_⟩, ?_,
    fun net hagrees => ?_⟩
  · exact Or.inl (RingState.setTask_task_self _ _ _)
  · exact RingState.setTask_task_self _ _ _
  · show Function.update (Function.update (Function.update s.task _ _) _ _) _ _ = _
    rw [Function.update_idem, Function.update_idem]
  · have hnotified : (s.setNode (s.node a).successor.address (RingState.handleNotify
        (s.node (s.node a).successor.address) (s.node a).info)).Agrees (net.notified a) := by
      rw [notified_eq, ← (hagrees a).successor, ← (hagrees a).info]
      exact hagrees.setNode ((hagrees _).handleNotify _)
    -- The new successor list is no pointer.
    have hself := hnotified a
    have hsame : (net.notified a).setNode a ((net.notified a).node a) = net.notified a :=
      setNode_same
    rw [← hsame]
    exact hnotified.setNode ⟨hself.info, hself.successor, hself.predecessor⟩

/-- A stabilization of a node of a ring, as a run of interleaved steps. -/
theorem exists_run {a : String} (hidle : s.task a = .idle) (hagrees : s.Agrees net) :
    ∃ ended r, s.Run ended r ∧ a ∈ ended ∧ RestsAfter a s r ∧ r.Agrees (net.stabilized a) := by
  have hnet := hagrees a
  unfold stabilized
  by_cases hself : (s.node a).info.id = (s.node a).successor.id
  · rw [if_pos (by rw [← hnet.info, ← hnet.successor]; exact hself)]
    obtain ⟨ended, r, hsr, hmem, hrest, halone⟩ := run_alone hself hidle
    exact ⟨ended, r, hsr, hmem, hrest, halone net hagrees⟩
  · rw [if_neg (by rw [← hnet.info, ← hnet.successor]; exact hself)]
    obtain ⟨ended, t, hst, htask, hanswered⟩ := run_answered hself hidle
    obtain ⟨ended', r, htr, hmem, hrest, hnotified⟩ := run_notified (s := t) (a := a) (by
      rw [htask, Function.update_self])
    refine ⟨_, r, run_trans hst htr, Or.inr hmem, ?_, hnotified _ (hanswered net hagrees)⟩
    rw [RestsAfter, hrest, htask, Function.update_idem]

/-- The calls of a stabilization in a ring are for nodes of the network. -/
theorem RingInvariant.stabilize_successors (h : D.RingInvariant s f) (hi : D.Member s i)
    (hidle : s.task (D.info i).address = .idle) (hagrees : s.Agrees net)
    (hself : (net.node (D.info i).address).info.id ≠ (net.node (D.info i).address).successor.id) :
    (∃ j ∈ D.ids, (net.node (D.info i).address).successor = D.info j) ∧
      ∃ j ∈ D.ids, ((net.answered (D.info i).address).node (D.info i).address).successor
        = D.info j := by
  have hnet := hagrees (D.info i).address
  obtain ⟨ended, t, hst, htask, hanswered⟩ := run_answered (a := (D.info i).address)
    (by rw [hnet.info, hnet.successor]; exact hself) hidle
  have hti : D.Member t i := ⟨hi.1, by rw [htask, Function.update_self]; trivial⟩
  have hinv : D.RingInvariant t f := h.reachable (run_reachable hst)
  refine ⟨⟨_, (h.succ_member i hi).1, ?_⟩, _, (hinv.succ_member i hti).1, ?_⟩
  · exact hnet.successor.symm.trans (h.successor_eq hi)
  · exact (hanswered net hagrees _).successor.symm.trans (hinv.successor_eq hti)

/-- Both nodes that a stabilization calls are listening. -/
theorem RingInvariant.stabilize_listening (h : D.RingInvariant s f) (hrun : D.Runs net)
    (hi : D.Member s i) (hidle : s.task (D.info i).address = .idle) (hagrees : s.Agrees net)
    (hself : (net.node (D.info i).address).info.id ≠ (net.node (D.info i).address).successor.id) :
    net.listening (net.node (D.info i).address).successor.address = true ∧
      net.listening ((net.answered (D.info i).address).node
        (D.info i).address).successor.address = true := by
  obtain ⟨⟨j, hj, hsucc⟩, k, hk, hafter⟩ := h.stabilize_successors hi hidle hagrees hself
  rw [hsucc, hafter]
  exact ⟨hrun.listening j hj, hrun.listening k hk⟩

/-- A stabilization of a node of a ring does to the pointers what `stabilized` says. -/
theorem RingInvariant.returns_stabilize (h : D.RingInvariant s f) (hrun : D.Runs net)
    (hi : D.Member s i) (hidle : s.task (D.info i).address = .idle) (hagrees : s.Agrees net) :
    Returns (stabilize (env reliable (depth + 3) (D.info i).address)) net fun _ net' =>
      SamePointers (net.stabilized (D.info i).address) net' := by
  by_cases hself : (net.node (D.info i).address).info.id
      = (net.node (D.info i).address).successor.id
  · rw [returns_stabilize_alone hself, stabilized, if_pos hself]
    exact .refl _
  · obtain ⟨hl, hl'⟩ := h.stabilize_listening hrun hi hidle hagrees hself
    rw [stabilized, if_neg hself]
    exact (stabilize_outside hself hl hl').mono fun _ _ hsame => hsame.toSamePointers

end Directory

end TaceChat
