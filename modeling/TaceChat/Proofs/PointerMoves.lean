import TaceChat.Proofs.RingInvariant

/-!
# What a step does to the pointers of the ring

`Directory.Moves` lists what one interleaved step does to the successors and predecessors of the
nodes. Most steps leave them alone. A node adopts a successor that lies inside the arc to its old
one, a node takes a notifier that lies inside the arc from its old predecessor, and the founder
clears its predecessor. `RingInvariant.moves` is the case analysis, and what later proofs say about
pointers is derived from it.

`SettledInvariant` adds to the ring invariant that only the founder clears its predecessor, that the
founder has none while it is alone, and that no node is its own predecessor.
-/

set_option autoImplicit false

namespace TaceChat

open IdCircle

namespace Directory

section
variable (D : Directory) (s r : RingState)

/-- The successor and the predecessor of a node. -/
def pointers (i : NodeId) : NodeInfo × Option NodeInfo :=
  ((D.at' s.node i).successor, (D.at' s.node i).predecessor)

/-- The predecessor of a node. -/
def pred (i : NodeId) : Option NodeInfo := (D.at' s.node i).predecessor

/-- The pointers after one of them has been written. -/
def Writes (k : NodeId) (p : NodeInfo × Option NodeInfo) : Prop :=
  ∀ i ∈ D.ids, D.pointers r i = if i = k then p else D.pointers s i

/-- What a step does to the pointers. -/
inductive Moves : Prop
  | keep (same : ∀ i ∈ D.ids, D.pointers r i = D.pointers s i)
  /-- A node joins. -/
  | join {i : NodeId} {x : NodeInfo} (before : ¬D.Member s i) (after : D.Member r i)
      (write : D.Writes s r i (x, D.pred s i))
  /-- A node adopts a successor that lies inside the arc to its old one. -/
  | adopt {i j : NodeId} (hi : D.Member s i) (hj : D.Member s j)
      (inside : arc i j < arc i (D.succ s.node i)) (write : D.Writes s r i (D.info j, D.pred s i))
  /-- A node takes a notifier that lies inside the arc from its old predecessor. -/
  | accept {i k : NodeId} (hi : D.Member s i) (goal : D.succ s.node i = k) (hne : k ≠ i)
      (inside : ∀ p, D.pred s k = some p → InArc i p.id k)
      (write : D.Writes s r k
        (if D.succ s.node k = k then D.info i else (D.at' s.node k).successor, some (D.info i)))
  /-- A node that was alone when it looked clears its predecessor. -/
  | clear {i : NodeId} (hi : D.Member s i) (before : s.task (D.info i).address = .clearing)
      (after : r.task (D.info i).address = .idle)
      (write : D.Writes s r i ((D.at' s.node i).successor, none))

end

variable {D : Directory} {s r : RingState} {f i k : NodeId} {p : NodeInfo × Option NodeInfo}

/-- A write to one node, and a step in some node's code. -/
theorem writes_setTask (hk : k ∈ D.ids) {n : ChordNode} {a : String} {t : Task}
    (hn : (n.successor, n.predecessor) = p) :
    D.Writes s ((s.setNode (D.info k).address n).setTask a t) k p := by
  intro i hi
  show ((D.at' (s.setNode (D.info k).address n).node i).successor,
    (D.at' (s.setNode (D.info k).address n).node i).predecessor) = _
  rw [at'_write hk hi]
  split
  · exact hn
  · rfl

/-- The pointers of the node that has been written. -/
theorem pointers_setTask (hk : k ∈ D.ids) {n : ChordNode} {a : String} {t : Task} :
    D.pointers ((s.setNode (D.info k).address n).setTask a t) k = (n.successor, n.predecessor) := by
  exact (writes_setTask hk rfl k hk).trans (if_pos rfl)

/-- A write that leaves both pointers alone. -/
theorem Writes.keep (h : D.Writes s r k (D.pointers s k)) : D.Moves s r := by
  refine .keep fun i hi => ?_
  rw [h i hi]
  split
  · rename_i heq
    rw [heq]
  · rfl

/-- The successors after a write. -/
theorem Writes.succ (h : D.Writes s r k p) (hi : i ∈ D.ids) :
    D.succ r.node i = if i = k then p.1.id else D.succ s.node i := by
  have := congrArg (fun q => q.1.id) (h i hi)
  show (D.pointers r i).1.id = _
  rw [h i hi]
  split <;> rfl

/-- The predecessors after a write. -/
theorem Writes.pred (h : D.Writes s r k p) (hi : i ∈ D.ids) :
    D.pred r i = if i = k then p.2 else D.pred s i := by
  show (D.pointers r i).2 = _
  rw [h i hi]
  split <;> rfl

/-! ### The case analysis -/

/-- A notification is the node's own, or it comes from outside the arc from the predecessor, or it
is accepted. -/
theorem handleNotify_inside (n : ChordNode) (x : NodeInfo) :
    (x.id = n.info.id ∧ RingState.handleNotify n x = n) ∨
    (∃ p, n.predecessor = some p ∧ isBetween x.id p.id n.info.id = false ∧
      RingState.handleNotify n x = n) ∨
    (∀ p, n.predecessor = some p → isBetween x.id p.id n.info.id = true) ∧
    RingState.handleNotify n x = { n with
      predecessor := some x
      successor := if n.successor.id = n.info.id then x else n.successor } := by
  unfold RingState.handleNotify
  split
  · exact Or.inl ⟨‹_›, rfl⟩
  · refine Or.inr ?_
    cases hpred : n.predecessor with
    | none => exact Or.inr ⟨by simp, by simp [ChordNode.notifyUpdate, hpred]⟩
    | some p =>
      cases hbetween : isBetween x.id p.id n.info.id with
      | true => exact Or.inr ⟨by simpa using hbetween, by
          simp [ChordNode.notifyUpdate, hpred, hbetween]⟩
      | false => exact Or.inl ⟨p, rfl, hbetween, by simp [ChordNode.notifyUpdate, hpred, hbetween]⟩

/-- Every step moves pointers in one of these ways. -/
theorem RingInvariant.moves (h : D.RingInvariant s f) (hstep : s.Step r) : D.Moves s r := by
  cases hstep with
  | askBootstrap => exact .keep fun _ _ => rfl
  | nameSuccessor => exact .keep fun _ _ => rfl
  | joinWrite ha =>
    obtain ⟨i, hi, rfl, -⟩ := h.actor ha (by simp)
    refine .join (fun hm => ?_) ⟨hi, ?_⟩ (writes_setTask hi rfl)
    · have hjoined := hm.2
      rw [ha] at hjoined
      exact hjoined
    · rw [RingState.setTask_task_self]
      trivial
  | readSuccessor => exact .keep fun _ _ => rfl
  | clearPredecessor ha =>
    obtain ⟨i, hi, rfl, -⟩ := h.actor ha (by simp)
    exact .clear ⟨hi, by rw [ha]; trivial⟩ ha (RingState.setTask_task_self _ _ _)
      (writes_setTask hi rfl)
  | handleGetPredecessor => exact .keep fun _ _ => rfl
  | @writeSuccessor _ _ x ha =>
    obtain ⟨i, hi, rfl, rfl, hself, hx⟩ := h.actor ha (by simp)
    have hm : D.Member s i := ⟨hi, by rw [ha]; trivial⟩
    have hid : (s.node (D.info i).address).info.id = i := by
      rw [show (s.node (D.info i).address).info = D.info i from h.info i hi, D.info_id]
    have hsame : D.Writes s ((s.setNode (D.info i).address (s.node (D.info i).address)).setTask
        (D.info i).address .written) i (D.pointers s i) := writes_setTask hi rfl
    cases x with
    | none => exact hsame.keep
    | some x =>
      obtain ⟨j, hj, rfl, -⟩ := hx x rfl
      by_cases hbetween : isBetween j i (D.succ s.node i) = true
      · have hadopt : (s.node (D.info i).address).adoptSuccessor (D.at' s.node i).successor
            (D.info j) = { s.node (D.info i).address with successor := D.info j } := by
          rw [ChordNode.adoptSuccessor, hid, D.info_id]
          exact if_pos hbetween
        have hwrite : D.Writes s ((s.setNode (D.info i).address
            { s.node (D.info i).address with successor := D.info j }).setTask
            (D.info i).address .written) i (D.info j, D.pred s i) := writes_setTask hi rfl
        simp only [hadopt]
        rw [isBetween_iff] at hbetween
        rcases Nat.lt_or_eq_of_le ((inArc_iff_arc_le (Ne.symm hself)).mp hbetween) with hlt | heq
        · exact .adopt hm hj hlt hwrite
        · -- The reported node is the successor.
          refine Writes.keep (k := i) ?_
          rw [pointers, h.successor_eq hm, ← arc_inj_right heq]
          exact hwrite
      · have hadopt : (s.node (D.info i).address).adoptSuccessor (D.at' s.node i).successor
            (D.info j) = s.node (D.info i).address := by
          rw [ChordNode.adoptSuccessor, hid, D.info_id]
          exact if_neg hbetween
        simp only [hadopt]
        exact hsame.keep
  | sendNotify => exact .keep fun _ _ => rfl
  | receiveNotify ha =>
    obtain ⟨i, hi, rfl, rfl, hself⟩ := h.actor ha (by simp)
    have hm : D.Member s i := ⟨hi, by rw [ha]; trivial⟩
    have hk : D.succ s.node i ∈ D.ids := (h.succ_member i hm).1
    rw [h.successor_eq hm, show (s.node (D.info i).address).info = D.info i from h.info i hi]
    have hinfo : (s.node (D.info (D.succ s.node i)).address).info = D.info (D.succ s.node i) :=
      h.info _ hk
    have hsame : D.Writes s ((s.setNode (D.info (D.succ s.node i)).address (s.node
        (D.info (D.succ s.node i)).address)).setTask (D.info i).address .notified)
        (D.succ s.node i) (D.pointers s (D.succ s.node i)) := writes_setTask hk rfl
    rcases handleNotify_inside (s.node (D.info (D.succ s.node i)).address) (D.info i)
      with ⟨-, heq⟩ | ⟨-, -, -, heq⟩ | ⟨hinside, heq⟩
    · rw [heq]
      exact hsame.keep
    · rw [heq]
      exact hsame.keep
    · rw [hinfo, D.info_id, D.info_id] at hinside
      refine .accept hm rfl hself (fun p hp => (isBetween_iff _ _ _).mp (hinside p hp)) ?_
      refine writes_setTask hk ?_
      rw [heq, hinfo, D.info_id]
      rfl
  | finish successorList ha =>
    obtain ⟨i, hi, rfl, -⟩ := h.actor ha (by simp)
    exact Writes.keep (k := i) (writes_setTask hi rfl)

/-! ### What else no step breaks -/

/-- What convergence needs besides the ring. -/
structure SettlingInvariant (D : Directory) (s : RingState) (f : NodeId) : Prop extends
    D.RingInvariant s f where
  clearing : ∀ i ∈ D.ids, s.task (D.info i).address = .clearing → i = f
  alone : D.succ s.node f = f → D.pred s f = none
  other : ∀ i ∈ D.ids, ∀ p, D.pred s i = some p → p.id ≠ i

/-- A node that comes to clear its predecessor is its own successor. -/
theorem clearing_step (hstep : s.Step r) {a : String} (ha : r.task a = .clearing) :
    s.task a = .clearing ∨
      (s.task a).Joined ∧ (s.node a).info.id = (s.node a).successor.id := by
  have hset : ∀ {u : RingState} {b : String} {t : Task}, u.task = s.task →
      (u.setTask b t).task a = .clearing → s.task a = .clearing ∨ a = b ∧ t = .clearing := by
    intro u b t hu hb
    by_cases hab : a = b
    · rw [hab, RingState.setTask_task_self] at hb
      exact Or.inr ⟨hab, hb⟩
    · rw [RingState.setTask_task_of_ne hab, hu] at hb
      exact Or.inl hb
  cases hstep with
  | readSuccessor hb =>
    rcases hset rfl ha with hold | ⟨rfl, hnew⟩
    · exact Or.inl hold
    · refine Or.inr ⟨by rw [hb]; trivial, ?_⟩
      by_contra hne
      rw [if_neg hne] at hnew
      cases hnew
  | _ =>
    -- No other step leads to this place in the code.
    rcases hset rfl ha with hold | ⟨-, hnew⟩
    · exact Or.inl hold
    · cases hnew

/-- A node that is its own successor is the founder. -/
theorem RingInvariant.eq_founder (h : D.RingInvariant s f) (hi : D.Member s i)
    (hself : D.succ s.node i = i) : i = f := by
  obtain ⟨n, hn⟩ := (h.leads i hi).iterate
  exact (Function.iterate_fixed hself n).symm.trans hn

/-- No step makes the founder its own successor again. -/
theorem Moves.alone (h : D.Moves s r) (hf : D.Member s f) (hself : D.succ r.node f = f) :
    D.succ s.node f = f := by
  cases h with
  | keep same =>
    have hsucc : D.succ r.node f = D.succ s.node f := congrArg (fun q => q.1.id) (same f hf.1)
    exact hsucc ▸ hself
  | join before after write =>
    rw [write.succ hf.1, if_neg (by rintro rfl; exact before hf)] at hself
    exact hself
  | @adopt i j hi hj inside write =>
    rw [write.succ hf.1] at hself
    split at hself
    · rename_i heq
      subst heq
      rw [D.info_id] at hself
      exact absurd hself.symm (ne_of_arc_lt inside)
    · exact hself
  | @accept i k hi goal hne inside write =>
    by_contra hloop
    rw [write.succ hf.1] at hself
    by_cases hfk : f = k
    · subst hfk
      rw [if_pos rfl, if_neg hloop] at hself
      exact hloop hself
    · rw [if_neg hfk] at hself
      exact hloop hself
  | @clear i hi before after write =>
    rw [write.succ hf.1] at hself
    split at hself
    · rename_i heq
      exact heq ▸ hself
    · exact hself

/-- A predecessor after a step was one before, or it notified the node that took it. -/
theorem Moves.pred (h : D.Moves s r) (hi : i ∈ D.ids) {q : NodeInfo} (hq : D.pred r i = some q) :
    D.pred s i = some q ∨ ∃ j, D.Member s j ∧ D.succ s.node j = i ∧ i ≠ j ∧ q = D.info j ∧
      D.Writes s r i (if D.succ s.node i = i then q else (D.at' s.node i).successor, some q) := by
  cases h with
  | keep same =>
    have hsame : D.pred r i = D.pred s i := congrArg Prod.snd (same i hi)
    exact Or.inl (hsame ▸ hq)
  | join before after write | adopt hj hk inside write =>
    rw [write.pred hi] at hq
    split at hq
    · rename_i heq
      exact Or.inl (heq ▸ hq)
    · exact Or.inl hq
  | @accept j k hj goal hne inside write =>
    rw [write.pred hi] at hq
    by_cases hik : i = k
    · subst hik
      rw [if_pos rfl] at hq
      obtain rfl : D.info j = q := Option.some.inj hq
      exact Or.inr ⟨j, hj, goal, hne, rfl, write⟩
    · rw [if_neg hik] at hq
      exact Or.inl hq
  | clear hj before after write =>
    rw [write.pred hi] at hq
    split at hq
    · cases hq
    · exact Or.inl hq

/-- Every step keeps the invariant. -/
theorem SettlingInvariant.step (h : D.SettlingInvariant s f) (hstep : s.Step r) :
    D.SettlingInvariant r f := by
  have hmoves := h.moves hstep
  refine ⟨h.toRingInvariant.step hstep, fun i hi hclear => ?_, fun hself => ?_, fun i hi q hq => ?_⟩
  · rcases clearing_step hstep hclear with hold | ⟨hjoined, hself⟩
    · exact h.clearing i hi hold
    · rw [show (s.node (D.info i).address).info = D.info i from h.info i hi, D.info_id] at hself
      exact h.eq_founder ⟨hi, hjoined⟩ hself.symm
  · have hbefore := hmoves.alone h.founder hself
    cases hpred : D.pred r f with
    | none => rfl
    | some q =>
      -- Whoever notifies a founder that is alone becomes its successor.
      rcases hmoves.pred h.founder.1 hpred with hold | ⟨j, -, -, hne, rfl, hwrite⟩
      · rw [h.alone hbefore] at hold
        cases hold
      · rw [hwrite.succ h.founder.1, if_pos rfl, if_pos hbefore, D.info_id] at hself
        exact absurd hself.symm hne
  · rcases hmoves.pred hi hq with hold | ⟨j, -, -, hne, rfl, -⟩
    · exact h.other i hi q hold
    · rw [D.info_id]
      exact Ne.symm hne

/-- Every reachable state has the invariant. -/
theorem SettlingInvariant.reachable (h : D.SettlingInvariant s f) (hrun : s.Reachable r) :
    D.SettlingInvariant r f := by
  induction hrun with
  | refl => exact h
  | step _ hstep ih => exact ih.step hstep

/-- The first state has the invariant. -/
theorem Founded.settlingInvariant (h : D.Founded f s) : D.SettlingInvariant s f := by
  refine ⟨h.ringInvariant, fun i hi hclear => ?_, fun _ => h.predecessor f h.mem,
    fun i hi q hq => ?_⟩
  · by_contra hne
    rw [h.fresh i hi hne] at hclear
    cases hclear
  · rw [show D.pred s i = none from h.predecessor i hi] at hq
    cases hq

/-- A run is a sequence of steps. -/
theorem run_reachable {ended : Set String} (h : s.Run ended r) : s.Reachable r := by
  induction h with
  | refl => exact .refl
  | step _ hstep ih => exact ih.step hstep

/-- Who has joined stays. -/
theorem member_step (hstep : s.Step r) (hi : D.Member s i) : D.Member r i := by
  have hset : ∀ {u : RingState} {b : String} {t : Task}, u.task = s.task →
      ((s.task b).Joined → t.Joined) → ((u.setTask b t).task (D.info i).address).Joined := by
    intro u b t hu hkeep
    by_cases hab : (D.info i).address = b
    · rw [hab, RingState.setTask_task_self]
      exact hkeep (hab ▸ hi.2)
    · rw [RingState.setTask_task_of_ne hab, hu]
      exact hi.2
  refine ⟨hi.1, ?_⟩
  cases hstep with
  | askBootstrap ha | nameSuccessor ha => exact hset rfl fun hj => by rw [ha] at hj; exact hj
  | readSuccessor => exact hset rfl fun _ => by split <;> trivial
  | _ => exact hset rfl fun _ => trivial

end Directory

end TaceChat
