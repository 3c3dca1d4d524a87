import TaceChat.Library.Gaps
import TaceChat.Library.Settling
import TaceChat.Proofs.FixedPoint
import TaceChat.Proofs.PointerMoves

/-!
# The ring converges

Once no more node joins, stabilizations make every pointer exact. A pass is a run in which every
node of the ring ends a stabilization, in any order and with any interleaving. The rank of a state
counts the nodes that its pointers skip, and `card + 1` more as long as the founder may yet clear
its predecessor. Every step lowers the rank or leaves all pointers alone (`rank_step`).

Two passes that do not lower the rank find nothing to change. In the first one every node ends what
it was doing, and starts afresh with what its neighbours hold (`OnTrack`). In the second one every
node asks and notifies its successor, which then has that node as its predecessor (`Noticed`). A
successor has one predecessor, so no two nodes share a successor, and `eq_next_of_injOn` makes them
exact.
-/

set_option autoImplicit false

namespace TaceChat

open IdCircle

namespace Directory

variable {D : Directory} {s t r : RingState} {f i j k : NodeId} {R : Finset NodeId}
  {ended : Set String}

/-! ### The rank -/

/-- The number of nodes that a predecessor of `i` skips, all of them when there is none. -/
def backGap (R : Finset NodeId) (i : NodeId) (p : Option NodeInfo) : ℕ :=
  p.elim R.card fun p => gapBefore R p.id i

/-- The founder is alone, or believed so when it looked. -/
def Pending (D : Directory) (s : RingState) (f : NodeId) : Prop :=
  D.succ s.node f = f ∨ s.task (D.info f).address = .clearing

/-- The nodes that the successors skip. -/
def forward (D : Directory) (R : Finset NodeId) (s : RingState) : ℕ :=
  ∑ i ∈ R, gapAfter R i (D.succ s.node i)

/-- The nodes that the predecessors skip. -/
def backward (D : Directory) (R : Finset NodeId) (s : RingState) : ℕ :=
  ∑ i ∈ R, backGap R i (D.pred s i)

open Classical in
/-- What the founder may yet undo. -/
noncomputable def undo (D : Directory) (R : Finset NodeId) (f : NodeId) (s : RingState) : ℕ :=
  if D.Pending s f then R.card + 1 else 0

/-- What the pointers skip, with what the founder may yet undo. -/
noncomputable def rank (D : Directory) (R : Finset NodeId) (f : NodeId) (s : RingState) : ℕ :=
  D.forward R s + D.backward R s + D.undo R f s

/-- A predecessor skips at most all the nodes. -/
theorem backGap_le (i : NodeId) (p : Option NodeInfo) : backGap R i p ≤ R.card := by
  cases p with
  | none => exact Nat.le_refl _
  | some p => exact Finset.card_filter_le _ _

/-- The rank is at most quadratic in the size of the ring. -/
theorem rank_le : D.rank R f s ≤ 2 * R.card ^ 2 + 1 := by
  have hforward : D.forward R s ≤ R.card * (R.card - 1) :=
    Finset.sum_le_card_nsmul _ _ _ fun i hi => Nat.le_sub_one_of_lt (gapAfter_lt_card hi)
  have hback : D.backward R s ≤ R.card * R.card :=
    Finset.sum_le_card_nsmul _ _ _ fun i _ => backGap_le i _
  have hsub : R.card * (R.card - 1) + R.card = R.card * R.card := by
    rcases Nat.eq_zero_or_pos R.card with h | h
    · simp [h]
    · rw [← Nat.mul_succ, Nat.succ_eq_add_one, Nat.sub_add_cancel h]
  rw [Nat.pow_two]
  unfold rank undo
  split <;> omega

/-- A notifier inside the arc from the old predecessor leaves fewer nodes between. -/
theorem backGap_lt {p : Option NodeInfo} (hi : i ∈ R) (hik : k ≠ i)
    (hinside : ∀ q, p = some q → InArc i q.id k) :
    backGap R k (some (D.info i)) < backGap R k p := by
  show gapBefore R (D.info i).id k < backGap R k p
  rw [D.info_id]
  cases p with
  | none => exact gapBefore_lt_card hi
  | some q =>
    have hin := hinside q rfl
    have hqk : q.id ≠ k := fun heq => not_inArc_self (heq ▸ hin)
    refine gapBefore_lt hi ?_
    rw [arc_of_ne (Ne.symm hik), arc_of_ne hqk]
    exact hin.cw_lt_cw

/-- The founder does not come to believe that it is alone. -/
theorem Pending.before (h : D.SettlingInvariant s f) (hstep : s.Step r) (hr : D.Pending r f) :
    D.Pending s f := by
  rcases hr with hself | hclear
  · exact Or.inl ((h.moves hstep).alone h.founder hself)
  · rcases clearing_step hstep hclear with hold | ⟨-, hself⟩
    · exact Or.inr hold
    · rw [show (s.node (D.info f).address).info = D.info f from h.info f h.founder.1,
        D.info_id] at hself
      exact Or.inl hself.symm

/-- The ring is `R`, and everything holds of it that no step breaks. -/
structure Settling (D : Directory) (R : Finset NodeId) (f : NodeId) (s : RingState) : Prop extends
    D.SettlingInvariant s f where
  members : ∀ i, D.Member s i ↔ i ∈ R

/-- The same pointers have the same successor. -/
theorem succ_congr (h : D.pointers r i = D.pointers s i) : D.succ r.node i = D.succ s.node i :=
  congrArg (fun p => p.1.id) h

/-- The same pointers have the same predecessor. -/
theorem pred_congr (h : D.pointers r i = D.pointers s i) : D.pred r i = D.pred s i :=
  congrArg Prod.snd h

/-- The same successors skip the same nodes. -/
theorem forward_congr (h : ∀ i ∈ R, D.succ r.node i = D.succ s.node i) :
    D.forward R r = D.forward R s := by
  exact Finset.sum_congr rfl fun i hi => by rw [h i hi]

/-- The same predecessors skip the same nodes. -/
theorem backward_congr (h : ∀ i ∈ R, D.pred r i = D.pred s i) :
    D.backward R r = D.backward R s := by
  exact Finset.sum_congr rfl fun i hi => by rw [h i hi]

/-- What the founder may undo does not grow. -/
theorem undo_le (h : D.Pending r f → D.Pending s f) : D.undo R f r ≤ D.undo R f s := by
  unfold undo
  by_cases hr : D.Pending r f
  · rw [if_pos hr, if_pos (h hr)]
  · rw [if_neg hr]
    exact Nat.zero_le _

/-- The successors after the successor of one node has moved to a member inside its arc. -/
theorem forward_lt {p : NodeInfo × Option NodeInfo} (hids : ∀ i ∈ R, i ∈ D.ids)
    (hwrite : D.Writes s r k p) (hk : k ∈ R) (hp : p.1.id ∈ R)
    (hlt : arc k p.1.id < arc k (D.succ s.node k)) : D.forward R r < D.forward R s := by
  have hless : gapAfter R k (D.succ r.node k) < gapAfter R k (D.succ s.node k) := by
    rw [hwrite.succ (hids k hk), if_pos rfl]
    exact gapAfter_lt hp hlt
  refine Finset.sum_lt_sum (fun i hi => ?_) ⟨k, hk, hless⟩
  by_cases hik : i = k
  · exact hik ▸ Nat.le_of_lt hless
  · rw [hwrite.succ (hids i hi), if_neg hik]

/-- A step leaves all pointers of the ring alone and does not raise the rank, or lowers it. -/
theorem rank_step (h : D.Settling R f s) (hr : ∀ i, D.Member r i ↔ i ∈ R) (hstep : s.Step r) :
    ((∀ i ∈ R, D.pointers r i = D.pointers s i) ∧ D.rank R f r ≤ D.rank R f s) ∨
      D.rank R f r < D.rank R f s := by
  have hundo : D.undo R f r ≤ D.undo R f s :=
    undo_le (Pending.before h.toSettlingInvariant hstep)
  have hids : ∀ i ∈ R, i ∈ D.ids := fun i hi => ((h.members i).mpr hi).1
  have hkeep : (∀ i ∈ R, D.pointers r i = D.pointers s i) → D.rank R f r ≤ D.rank R f s := by
    intro hsame
    have hforward : D.forward R r = D.forward R s :=
      forward_congr fun i hi => succ_congr (hsame i hi)
    have hback : D.backward R r = D.backward R s :=
      backward_congr fun i hi => pred_congr (hsame i hi)
    unfold rank
    omega
  cases h.moves hstep with
  | keep same =>
    have hsame : ∀ i ∈ R, D.pointers r i = D.pointers s i := fun i hi => same i (hids i hi)
    exact Or.inl ⟨hsame, hkeep hsame⟩
  | @join i x before after write =>
    exact absurd ((h.members i).mpr ((hr i).mp after)) before
  | @adopt i j hi hj inside write =>
    refine Or.inr ?_
    have hforward : D.forward R r < D.forward R s := by
      refine forward_lt hids write ((h.members i).mp hi) ?_ ?_ <;> rw [D.info_id]
      · exact (h.members j).mp hj
      · exact inside
    have hback : D.backward R r = D.backward R s := by
      refine backward_congr fun k hk => ?_
      rw [write.pred (hids k hk)]
      split
      · rename_i heq
        rw [heq]
      · rfl
    unfold rank
    omega
  | @accept i k hi goal hne inside write =>
    refine Or.inr ?_
    have hk : D.Member s k := goal ▸ h.succ_member i hi
    have hkR : k ∈ R := (h.members k).mp hk
    have hback : D.backward R r < D.backward R s := by
      have hless : backGap R k (D.pred r k) < backGap R k (D.pred s k) := by
        rw [write.pred hk.1, if_pos rfl]
        exact backGap_lt ((h.members i).mp hi) hne inside
      refine Finset.sum_lt_sum (fun j hj => ?_) ⟨k, hkR, hless⟩
      by_cases hjk : j = k
      · exact hjk ▸ Nat.le_of_lt hless
      · rw [write.pred (hids j hj), if_neg hjk]
    have hforward : D.forward R r ≤ D.forward R s := by
      by_cases hloop : D.succ s.node k = k
      · -- The founder was alone, and its successor skipped every other node.
        refine Nat.le_of_lt (forward_lt hids write hkR ?_ ?_) <;>
          rw [if_pos hloop, D.info_id]
        · exact (h.members i).mp hi
        · rw [hloop, arc_self, arc_of_ne hne]
          exact cw_lt k i
      · refine Nat.le_of_eq (forward_congr fun j hj => ?_)
        rw [write.succ (hids j hj), if_neg hloop]
        split
        · rename_i heq
          exact heq ▸ rfl
        · rfl
    unfold rank
    omega
  | @clear i hi before after write =>
    obtain rfl := h.clearing i hi.1 before
    have hsucc : ∀ j ∈ R, D.succ r.node j = D.succ s.node j := by
      intro j hj
      rw [write.succ (hids j hj)]
      split
      · rename_i heq
        exact heq ▸ rfl
      · rfl
    by_cases hpred : D.pred s i = none
    · have hsame : ∀ j ∈ R, D.pointers r j = D.pointers s j := by
        intro j hj
        rw [write j (hids j hj)]
        split
        · rename_i heq
          rw [heq, pointers, show (D.at' s.node i).predecessor = none from hpred]
        · rfl
      exact Or.inl ⟨hsame, hkeep hsame⟩
    · -- The founder is alone no more, so it forgets its predecessor for the last time.
      refine Or.inr ?_
      have hnot : ¬D.Pending r i := by
        rintro (hself | hclear)
        · rw [hsucc i ((h.members i).mp hi)] at hself
          exact hpred (h.alone hself)
        · rw [after] at hclear
          cases hclear
      have hback : D.backward R r ≤ D.backward R s + R.card := by
        have hpoint : ∀ j ∈ R, backGap R j (D.pred r j)
            ≤ backGap R j (D.pred s j) + if j = i then R.card else 0 := by
          intro j hj
          rw [write.pred (hids j hj)]
          split
          · exact Nat.le_add_left _ _
          · exact Nat.le_refl _
        refine Nat.le_trans (Finset.sum_le_sum hpoint) ?_
        rw [Finset.sum_add_distrib, Finset.sum_ite_eq', if_pos ((h.members i).mp hi)]
        exact Nat.le_refl _
      have hforward : D.forward R r = D.forward R s := forward_congr hsucc
      have hbefore : D.undo R i s = R.card + 1 := if_pos (Or.inr before)
      have hafter : D.undo R i r = 0 := if_neg hnot
      unfold rank
      omega

/-! ### Steps that change nothing -/

/-- A node in the middle of a stabilization knows what the pointers are now, and has found nothing
to change so far. -/
def OnTrack (D : Directory) (s : RingState) (i : NodeId) : Task → Prop
  | .answered _ x => x = D.pred s (D.succ s.node i)
  | .written | .notifying _ =>
    ∀ p, D.pred s (D.succ s.node i) = some p → ¬InArc p.id i (D.succ s.node i)
  | .notified => D.pred s (D.succ s.node i) = some (D.info i)
  | .clearing => D.succ s.node i = i
  | _ => True

/-- The successor of a node has it as its predecessor. -/
def Noticed (D : Directory) (s : RingState) (i : NodeId) : Prop :=
  D.succ s.node i ≠ i → D.pred s (D.succ s.node i) = some (D.info i)

/-- A successor is a node of the ring. -/
theorem Settling.succ_mem (h : D.Settling R f s) (hi : i ∈ R) : D.succ s.node i ∈ R :=
  (h.members _).mp (h.succ_member i ((h.members i).mpr hi))

section Same

variable (h : D.Settling R f s) (hsame : ∀ i ∈ R, D.pointers r i = D.pointers s i) (hi : i ∈ R)

include h hsame hi

/-- A node and its successor hold what they held. -/
theorem pred_succ_same :
    D.succ r.node i = D.succ s.node i ∧
      D.pred r (D.succ r.node i) = D.pred s (D.succ s.node i) := by
  have hsucc : D.succ r.node i = D.succ s.node i := succ_congr (hsame i hi)
  rw [hsucc]
  exact ⟨rfl, pred_congr (hsame _ (h.succ_mem hi))⟩

/-- What a node is about to do stays right while no pointer changes. -/
theorem OnTrack.same {t : Task} (ht : D.OnTrack s i t) : D.OnTrack r i t := by
  obtain ⟨hsucc, hpred⟩ := pred_succ_same h hsame hi
  cases t with
  | answered => exact Eq.trans ht hpred.symm
  | written | notifying =>
    intro p hp
    rw [hsucc]
    exact ht p (hpred ▸ hp)
  | notified => exact hpred.trans ht
  | clearing => exact hsucc.trans ht
  | _ => trivial

/-- A successor that has noticed a node keeps it while no pointer changes. -/
theorem Noticed.same (hn : D.Noticed s i) : D.Noticed r i := by
  obtain ⟨hsucc, hpred⟩ := pred_succ_same h hsame hi
  intro hne
  exact hpred.trans (hn (hsucc ▸ hne))

end Same

/-- A node that has taken nothing from the answer to its question had nothing to take. -/
theorem onTrack_written (h : D.Settling R f s) (hi : i ∈ R) {x : Option NodeInfo}
    (hx : x = D.pred s (D.succ s.node i))
    (hkeep : ∀ p, x = some p →
      ((D.at' s.node i).adoptSuccessor (D.at' s.node i).successor p).successor =
        (D.at' s.node i).successor)
    (p : NodeInfo) (hp : D.pred s (D.succ s.node i) = some p) :
    ¬InArc p.id i (D.succ s.node i) := by
  intro hin
  have hm : D.Member s i := (h.members i).mpr hi
  have hbetween : isBetween p.id i (D.at' s.node i).successor.id = true :=
    (isBetween_iff _ _ _).mpr hin
  have hadopt := hkeep p (hx.trans hp)
  rw [ChordNode.adoptSuccessor, h.info i hm.1, D.info_id, if_pos hbetween] at hadopt
  exact h.other _ (h.succ_member i hm).1 p hp (congrArg NodeInfo.id hadopt)

/-- A successor that has taken nothing from the notification has the notifier already. -/
theorem onTrack_notified (h : D.Settling R f s) (hi : i ∈ R) (hself : D.succ s.node i ≠ i)
    (hon : ∀ p, D.pred s (D.succ s.node i) = some p → ¬InArc p.id i (D.succ s.node i))
    (hkeep : (RingState.handleNotify (D.at' s.node (D.succ s.node i)) (D.info i)).predecessor
      = D.pred s (D.succ s.node i)) :
    D.pred s (D.succ s.node i) = some (D.info i) := by
  have hm : D.Member s i := (h.members i).mpr hi
  have hk := (h.succ_member i hm).1
  have hinfo : (D.at' s.node (D.succ s.node i)).info.id = D.succ s.node i := by
    rw [h.info _ hk, D.info_id]
  rcases handleNotify_inside (D.at' s.node (D.succ s.node i)) (D.info i)
    with ⟨heq, -⟩ | ⟨p, hp, hout, -⟩ | ⟨-, heq⟩
  · rw [hinfo, D.info_id] at heq
    exact absurd heq.symm hself
  · -- Neither of the notifier and the old predecessor is inside the arc of the other one.
    rw [D.info_id, hinfo] at hout
    have hnot : ¬InArc i p.id (D.succ s.node i) := fun hin => by
      rw [(isBetween_iff _ _ _).mpr hin] at hout
      cases hout
    obtain ⟨j, -, rfl, -⟩ := h.predecessor _ hk p hp
    have hpj := h.other _ hk _ hp
    have honp := hon _ hp
    rw [D.info_id] at hnot hpj honp
    rw [← eq_of_not_inArc (Ne.symm hself) hpj hnot honp] at hp
    exact hp
  · rw [heq] at hkeep
    exact hkeep.symm

/-- A step that changes no pointer keeps every node on track. -/
theorem onTrack_step (h : D.Settling R f s) (hstep : s.Step r)
    (hsame : ∀ i ∈ R, D.pointers r i = D.pointers s i) (hi : i ∈ R)
    (hon : D.OnTrack s i (s.task (D.info i).address)) :
    D.OnTrack r i (r.task (D.info i).address) := by
  have hm : D.Member s i := (h.members i).mpr hi
  -- The steps of other nodes do not move this one.
  have hother : ∀ {u : RingState} {a : String} {t : Task}, r = u.setTask a t → u.task = s.task →
      ((D.info i).address = a → D.OnTrack s i t) → D.OnTrack r i (r.task (D.info i).address) := by
    intro u a t hr hu ht
    refine OnTrack.same h hsame hi ?_
    rw [hr]
    by_cases hia : (D.info i).address = a
    · rw [hia, RingState.setTask_task_self]
      exact ht hia
    · rw [RingState.setTask_task_of_ne hia, hu]
      exact hon
  have htask := h.task i hm.1
  cases hstep with
  | readSuccessor ha =>
    refine hother rfl rfl ?_
    rintro rfl
    split
    · rename_i hself
      rw [show (s.node (D.info i).address).info = D.info i from h.info i hm.1, D.info_id] at hself
      exact hself.symm
    · trivial
  | handleGetPredecessor ha =>
    refine hother rfl rfl ?_
    rintro rfl
    rw [ha] at htask
    obtain ⟨rfl, -⟩ := htask
    rw [h.successor_eq hm]
    rfl
  | @writeSuccessor _ _ x ha =>
    refine hother rfl rfl ?_
    rintro rfl
    rw [ha] at hon htask
    obtain ⟨rfl, hself, -⟩ := htask
    refine onTrack_written h hi hon ?_
    rintro p rfl
    exact congrArg Prod.fst ((pointers_setTask hm.1).symm.trans (hsame i hi))
  | sendNotify ha =>
    refine hother rfl rfl ?_
    rintro rfl
    rw [ha] at hon
    exact hon
  | receiveNotify ha =>
    refine hother rfl rfl ?_
    rintro rfl
    rw [ha] at hon htask
    obtain ⟨rfl, hself⟩ := htask
    refine onTrack_notified h hi hself hon ?_
    rw [h.successor_eq hm, show (s.node (D.info i).address).info = D.info i from h.info i hm.1]
      at hsame
    exact congrArg Prod.snd ((pointers_setTask (h.succ_member i hm).1).symm.trans
      (hsame _ (h.succ_mem hi)))
  | _ => exact hother rfl rfl fun _ => trivial

/-! ### Passes -/

/-- A run in which no node joins and every node of the ring ends a stabilization. -/
def Pass (D : Directory) (R : Finset NodeId) (s r : RingState) : Prop :=
  (∀ i, D.Member r i ↔ i ∈ R) ∧
    ∃ ended, s.Run ended r ∧ ∀ i ∈ R, (D.info i).address ∈ ended

/-- A member stays one. -/
theorem member_run (hrun : s.Run ended r) (hi : D.Member s i) : D.Member r i := by
  induction hrun with
  | refl => exact hi
  | step _ hstep ih => exact member_step hstep ih

/-- Nobody joins on the way when nobody has joined at the end. -/
theorem members_before (h : D.Settling R f s) (hrun : s.Run ended t) (hstep : t.Step r)
    (hr : ∀ i, D.Member r i ↔ i ∈ R) (i : NodeId) : D.Member t i ↔ i ∈ R :=
  ⟨fun hi => (hr i).mp (member_step hstep hi), fun hi => member_run hrun ((h.members i).mpr hi)⟩

/-- A run with the same ring keeps what holds of it, and does not raise the rank. -/
theorem Settling.run (h : D.Settling R f s) (hrun : s.Run ended r)
    (hr : ∀ i, D.Member r i ↔ i ∈ R) : D.Settling R f r ∧ D.rank R f r ≤ D.rank R f s := by
  induction hrun with
  | refl => exact ⟨h, Nat.le_refl _⟩
  | step before hstep ih =>
    obtain ⟨ht, hle⟩ := ih (members_before h before hstep hr)
    refine ⟨⟨ht.toSettlingInvariant.step hstep, hr⟩, ?_⟩
    rcases rank_step ht hr hstep with ⟨-, hstay⟩ | hlt <;> omega

/-- In a run that does not lower the rank, a node that ends a stabilization is on track from then
on, and a node that was on track all the time has been noticed by its successor when it ends one. -/
theorem Settling.calm_run (h : D.Settling R f s) (hrun : s.Run ended r)
    (hr : ∀ i, D.Member r i ↔ i ∈ R) (hcalm : D.rank R f r = D.rank R f s) (hi : i ∈ R) :
    ((D.info i).address ∈ ended ∨ D.OnTrack s i (s.task (D.info i).address) →
      D.OnTrack r i (r.task (D.info i).address)) ∧
    (D.OnTrack s i (s.task (D.info i).address) → (D.info i).address ∈ ended →
      D.Noticed r i) := by
  induction hrun with
  | refl => exact ⟨fun hon => hon.resolve_left fun hmem => hmem, fun _ hmem => hmem.elim⟩
  | @step ended t r before hstep ih =>
    have hmembers := members_before h before hstep hr
    obtain ⟨ht, hle⟩ := h.run before hmembers
    obtain ⟨hsame, hstay⟩ | hlt := rank_step ht hr hstep
    · obtain ⟨htrack, hnoticed⟩ := ih hmembers (by omega)
      refine ⟨?_, fun hon hmem => ?_⟩
      · rintro ((hmem | hends) | hon)
        · exact onTrack_step ht hstep hsame hi (htrack (Or.inl hmem))
        · rw [hends.2]
          trivial
        · exact onTrack_step ht hstep hsame hi (htrack (Or.inr hon))
      · refine Noticed.same ht hsame hi ?_
        rcases hmem with hmem | ⟨hends, -⟩
        · exact hnoticed hon hmem
        · have htask := htrack (Or.inr hon)
          rcases hends with hends | hends <;> rw [hends] at htask
          · exact fun _ => htask
          · exact fun hne => absurd htask hne
    · omega

/-! ### Exact pointers -/

/-- A ring in which every successor has noticed the node before it is exact. -/
theorem Settling.exactPointers (h : D.Settling R f s) (hnoticed : ∀ i ∈ R, D.Noticed s i) :
    D.ExactPointers R s.node := by
  have hf : f ∈ R := (h.members f).mp h.founder
  have hinj : ∀ i ∈ R, ∀ j ∈ R, D.succ s.node i = D.succ s.node j → i = j := by
    -- A founder that is alone has no predecessor, so nobody else points to it.
    have hloop : ∀ i ∈ R, ∀ j ∈ R, D.succ s.node i = i → D.succ s.node j = i → j = i := by
      intro i hi j hj hself hji
      by_contra hne
      have hpred := hnoticed j hj (fun heq => hne (heq.symm.trans hji))
      obtain rfl := h.eq_founder ((h.members i).mpr hi) hself
      rw [hji, h.alone hself] at hpred
      cases hpred
    intro i hi j hj hij
    by_cases hii : D.succ s.node i = i
    · exact (hloop i hi j hj hii (hij.symm.trans hii)).symm
    · by_cases hjj : D.succ s.node j = j
      · exact hloop j hj i hi hjj (hij.trans hjj)
      · have hpi := hnoticed i hi hii
        rw [hij, hnoticed j hj hjj] at hpi
        have hid := congrArg NodeInfo.id (Option.some.inj hpi)
        rw [D.info_id, D.info_id] at hid
        exact hid.symm
  have hnext : ∀ i ∈ R, D.succ s.node i = next R i :=
    eq_next_of_injOn (fun i hi => h.succ_mem hi) hinj hf
      (fun i hi => h.leads i ((h.members i).mpr hi)) h.winds
  refine ⟨fun i hi => ?_, fun i hi => ?_⟩
  · rw [h.successor_eq ((h.members i).mpr hi), hnext i hi]
  · unfold predecessorIn
    split
    · rename_i hone
      have hself : D.succ s.node i = i := (hnext i hi).trans ((next_eq_self_iff hi).mpr hone)
      obtain rfl := h.eq_founder ((h.members i).mpr hi) hself
      exact h.alone hself
    · rename_i hone
      have hprev : prev R i ∈ R := prev_mem ⟨i, hi⟩ i
      have hsucc : D.succ s.node (prev R i) = i := (hnext _ hprev).trans (next_prev hi)
      have hne : i ≠ prev R i := fun heq =>
        hone ((next_eq_self_iff hi).mp (by rw [heq, next_prev hi]; exact heq))
      have hpred := hnoticed _ hprev (by rw [hsucc]; exact hne)
      rw [hsucc] at hpred
      exact hpred

/-- Exact pointers, and a founder that clears its predecessor only while it is alone. -/
structure Exact (D : Directory) (R : Finset NodeId) (f : NodeId) (s : RingState) : Prop where
  pointers : D.ExactPointers R s.node
  clearing : s.task (D.info f).address = .clearing → D.succ s.node f = f

/-- An exact successor is the next member. -/
theorem ExactPointers.succ_eq (h : D.ExactPointers R s.node) (hi : i ∈ R) :
    D.succ s.node i = next R i := by
  rw [succ, h.successor i hi, D.info_id]

/-- No step moves an exact pointer. -/
theorem Exact.step (h : D.Exact R f s) (hs : D.Settling R f s) (hr : ∀ i, D.Member r i ↔ i ∈ R)
    (hstep : s.Step r) : D.Exact R f r := by
  have hids : ∀ i ∈ R, i ∈ D.ids := fun i hi => ((hs.members i).mpr hi).1
  have hsame : ∀ i ∈ R, D.pointers r i = D.pointers s i := by
    cases hs.moves hstep with
    | keep same => exact fun i hi => same i (hids i hi)
    | @join i x before after write => exact absurd ((hs.members i).mpr ((hr i).mp after)) before
    | @adopt i j hi hj inside write =>
      -- No node lies before the next one.
      have hle := arc_next_le ((hs.members j).mp hj) i
      rw [h.pointers.succ_eq ((hs.members i).mp hi)] at inside
      omega
    | @accept i k hi goal hne inside write =>
      -- The next node has this one as its predecessor already.
      have hiR : i ∈ R := (hs.members i).mp hi
      have hnext : next R i = k := (h.pointers.succ_eq hiR).symm.trans goal
      have hkR : k ∈ R := hnext ▸ next_mem ⟨i, hiR⟩ i
      have hpred : D.pred s k = D.predecessorIn R k := h.pointers.predecessor k hkR
      rw [predecessorIn,
        if_neg fun hone => hne (hnext.symm.trans ((next_eq_self_iff hiR).mpr hone)),
        ← hnext, prev_next hiR, hnext] at hpred
      have hin := inside _ hpred
      rw [D.info_id] at hin
      exact absurd hin not_inArc_start
    | @clear i hi before after write =>
      -- The founder is the only node, and has no predecessor.
      obtain rfl := hs.clearing i hi.1 before
      have hnone := hs.alone (h.clearing before)
      intro j hj
      rw [write j (hids j hj)]
      split
      · rename_i heq
        rw [heq, Directory.pointers, show (D.at' s.node i).predecessor = none from hnone]
      · rfl
  have hf : f ∈ R := (hs.members f).mp hs.founder
  refine ⟨⟨fun i hi => ?_, fun i hi => ?_⟩, fun hclear => ?_⟩
  · exact (congrArg Prod.fst (hsame i hi)).trans (h.pointers.successor i hi)
  · exact (pred_congr (hsame i hi)).trans (h.pointers.predecessor i hi)
  · rw [succ_congr (hsame f hf)]
    rcases clearing_step hstep hclear with hold | ⟨-, hself⟩
    · exact h.clearing hold
    · rw [show (s.node (D.info f).address).info = D.info f from hs.info f hs.founder.1,
        D.info_id] at hself
      exact hself.symm

/-- No run moves an exact pointer. -/
theorem Exact.run (h : D.Exact R f s) (hs : D.Settling R f s) (hrun : s.Run ended r)
    (hr : ∀ i, D.Member r i ↔ i ∈ R) : D.Exact R f r := by
  induction hrun with
  | refl => exact h
  | step before hstep ih =>
    have hmembers := members_before hs before hstep hr
    exact (ih hmembers).step (hs.run before hmembers).1 hr hstep

/-! ### Passes exist -/

/-- One run after another. -/
theorem run_trans {ended' : Set String} (h : s.Run ended t) (h' : t.Run ended' r) :
    s.Run (ended ∪ ended') r := by
  induction h' with
  | refl => rwa [Set.union_empty]
  | step _ hstep ih =>
    rw [← Set.union_assoc]
    exact ih.step hstep

/-- A node can go on to the end of a stabilization, and nobody joins meanwhile. -/
def CanEnd (s : RingState) (a : String) : Prop :=
  ∃ ended r, s.Run ended r ∧ a ∈ ended ∧ ∀ b, (r.task b).Joined ↔ (s.task b).Joined

/-- A step in the code of a joined node. -/
theorem joined_setTask {u : RingState} {a : String} {task : Task} (hu : u.task = s.task)
    (hs : (s.task a).Joined) (ht : task.Joined) (b : String) :
    ((u.setTask a task).task b).Joined ↔ (s.task b).Joined := by
  by_cases hba : b = a
  · rw [hba, RingState.setTask_task_self]
    exact iff_of_true ht hs
  · rw [RingState.setTask_task_of_ne hba, hu]

/-- A step after which the node can end its stabilization. -/
theorem CanEnd.next {u : RingState} {a : String} {task : Task} (hstep : s.Step (u.setTask a task))
    (hu : u.task = s.task) (hs : (s.task a).Joined) (ht : task.Joined)
    (h : CanEnd (u.setTask a task) a) : CanEnd s a := by
  obtain ⟨ended, r, hrun, hmem, hkeep⟩ := h
  refine ⟨_, r, run_trans (RingState.Run.refl.step hstep) hrun, Or.inr hmem, fun b => ?_⟩
  exact (hkeep b).trans (joined_setTask hu hs ht b)

/-- The step that ends the stabilization. -/
theorem CanEnd.last {u : RingState} {a : String} (hstep : s.Step (u.setTask a .idle))
    (hu : u.task = s.task) (hs : s.task a = .notified ∨ s.task a = .clearing) : CanEnd s a := by
  have hjoined : (s.task a).Joined := by rcases hs with hs | hs <;> rw [hs] <;> trivial
  refine ⟨_, _, RingState.Run.refl.step hstep, Or.inr ⟨hs, RingState.setTask_task_self _ _ _⟩, ?_⟩
  exact joined_setTask hu hjoined trivial

/-- From every place in its code a joined node comes to the end of a stabilization. -/
theorem canEnd {a : String} (h : (s.task a).Joined) : CanEnd s a := by
  have hnotified : ∀ {s : RingState}, s.task a = .notified → CanEnd s a := fun ha =>
    .last (.finish [] ha) rfl (Or.inl ha)
  have hnotifying : ∀ {s : RingState} {x}, s.task a = .notifying x → CanEnd s a := fun ha =>
    .next (.receiveNotify ha) rfl (by rw [ha]; trivial) trivial
      (hnotified (RingState.setTask_task_self _ _ _))
  have hwritten : ∀ {s : RingState}, s.task a = .written → CanEnd s a := fun ha =>
    .next (.sendNotify ha) rfl (by rw [ha]; trivial) trivial
      (hnotifying (RingState.setTask_task_self _ _ _))
  have hanswered : ∀ {s : RingState} {x y}, s.task a = .answered x y → CanEnd s a := fun ha =>
    .next (.writeSuccessor ha) rfl (by rw [ha]; trivial) trivial
      (hwritten (RingState.setTask_task_self _ _ _))
  have hasking : ∀ {s : RingState} {x}, s.task a = .asking x → CanEnd s a := fun ha =>
    .next (.handleGetPredecessor ha) rfl (by rw [ha]; trivial) trivial
      (hanswered (RingState.setTask_task_self _ _ _))
  have hclearing : ∀ {s : RingState}, s.task a = .clearing → CanEnd s a := fun ha =>
    .last (.clearPredecessor ha) rfl (Or.inr ha)
  cases ha : s.task a with
  | outside | fresh | lookingUp | named => rw [ha] at h; exact h.elim
  | idle =>
    have hread := RingState.Step.readSuccessor ha
    split at hread
    · exact .next hread rfl h trivial (hclearing (RingState.setTask_task_self _ _ _))
    · exact .next hread rfl h trivial (hasking (RingState.setTask_task_self _ _ _))
  | clearing => exact hclearing ha
  | asking => exact hasking ha
  | answered => exact hanswered ha
  | written => exact hwritten ha
  | notifying => exact hnotifying ha
  | notified => exact hnotified ha

/-- The nodes of a ring can end a stabilization one after the other. -/
theorem Settling.exists_pass (h : D.Settling R f s) : ∃ r, D.Settling R f r ∧ D.Pass R s r := by
  have hrun : ∀ T ⊆ R, ∃ ended r, s.Run ended r ∧ (∀ i ∈ T, (D.info i).address ∈ ended) ∧
      ∀ b, (r.task b).Joined ↔ (s.task b).Joined := by
    intro T
    induction T using Finset.induction_on with
    | empty => exact fun _ => ⟨∅, s, .refl, by simp, fun _ => Iff.rfl⟩
    | insert i T hi ih =>
      intro hT
      obtain ⟨ended, t, hst, hall, hkeep⟩ := ih fun j hj => hT (Finset.mem_insert_of_mem hj)
      have hm : D.Member s i := (h.members i).mpr (hT (Finset.mem_insert_self i T))
      obtain ⟨ended', r, htr, hend, hkeep'⟩ := canEnd ((hkeep _).mpr hm.2)
      refine ⟨_, r, run_trans hst htr, fun j hj => ?_, fun b => (hkeep' b).trans (hkeep b)⟩
      rcases Finset.mem_insert.mp hj with rfl | hj
      · exact Or.inr hend
      · exact Or.inl (hall j hj)
  obtain ⟨ended, r, hrun, hall, hkeep⟩ := hrun R (Finset.Subset.refl R)
  have hr : ∀ i, D.Member r i ↔ i ∈ R := fun i =>
    (and_congr_right fun _ => hkeep _).trans (h.members i)
  exact ⟨r, (h.run hrun hr).1, hr, ended, hrun, hall⟩

/-- A pass is a run. -/
theorem Settling.pass (h : D.Settling R f s) (hpass : D.Pass R s r) :
    D.Settling R f r ∧ D.rank R f r ≤ D.rank R f s := by
  obtain ⟨hr, ended, hrun, -⟩ := hpass
  exact h.run hrun hr

/-- Two passes that find nothing to change. -/
theorem Settling.calm_passes (h : D.Settling R f s) (hone : D.Pass R s t) (htwo : D.Pass R t r)
    (hcalm : D.rank R f r = D.rank R f s) : D.Exact R f r := by
  obtain ⟨ht, hle⟩ := h.pass hone
  obtain ⟨hr, hle'⟩ := ht.pass htwo
  obtain ⟨hmem, ended, hrun, hall⟩ := hone
  obtain ⟨hmem', ended', hrun', hall'⟩ := htwo
  have htrack : ∀ i ∈ R, D.OnTrack t i (t.task (D.info i).address) := fun i hi =>
    (h.calm_run hrun hmem (by omega) hi).1 (Or.inl (hall i hi))
  have hf : f ∈ R := (h.members f).mp h.founder
  refine ⟨hr.exactPointers fun i hi => ?_, fun hclear => ?_⟩
  · exact (ht.calm_run hrun' hmem' (by omega) hi).2 (htrack i hi) (hall' i hi)
  · have hon := (ht.calm_run hrun' hmem' (by omega) hf).1 (Or.inl (hall' f hf))
    rw [hclear] at hon
    exact hon

/-- Enough passes find nothing to change any more. -/
theorem Settling.converges {k : ℕ} (h : D.Settling R f s) (hrow : InARow (D.Pass R) k s r)
    (hk : 4 * R.card ^ 2 + 4 ≤ k) : D.Settling R f r ∧ D.Exact R f r := by
  have hpass : ∀ s r, D.Settling R f s → D.Pass R s r → D.Settling R f r := fun s r h hp =>
    (h.pass hp).1
  have hbound : D.rank R f s ≤ 2 * R.card ^ 2 + 1 := rank_le
  refine ⟨hrow.keeps hpass h, ?_⟩
  refine hrow.settles (w := 2) hpass (fun s r h hp => (h.pass hp).2) ?_ ?_ h (by omega)
  · intro s r h htwo heq
    obtain ⟨t, hone, hlast⟩ := htwo.two
    exact h.calm_passes hone hlast heq
  · rintro s r h hgood ⟨hr, ended, hrun, -⟩
    exact hgood.run h hrun hr

end Directory

open Directory in
/-- In a network that joins have built, `k` passes of stabilizations can be made from every state
with the ring `R`, and whatever their steps and the order of their steps, they make all pointers
exact when `k` is at least four times the square of the number of nodes, and four more. The pointers
stay exact until another node joins. -/
theorem ring_converges (D : Directory) (f : NodeId) (start s : RingState) (R : Finset NodeId)
    (k : ℕ) (hstart : D.Founded f start) (hrun : start.Reachable s) (hs : ∀ i, D.Member s i ↔ i ∈ R)
    (hk : 4 * R.card ^ 2 + 4 ≤ k) :
    (∃ r, InARow (D.Pass R) k s r) ∧
    ∀ r, InARow (D.Pass R) k s r → ∀ ended u, r.Run ended u → (∀ i, D.Member u i ↔ i ∈ R) →
      D.ExactPointers R u.node := by
  have h : D.Settling R f s := ⟨hstart.settlingInvariant.reachable hrun, hs⟩
  refine ⟨?_, fun r hrow ended u hru hu => ?_⟩
  · obtain ⟨r, -, hrow⟩ := InARow.exists_of (fun s h => h.exists_pass) h k
    exact ⟨r, hrow⟩
  obtain ⟨hr, hexact⟩ := h.converges hrow hk
  exact (hexact.run hr hru hu).pointers

open Directory in
/-- `ring_converges` for the node 20 that has just joined the founder 10. -/
theorem ring_converges_pairJoined :
    ∃ r, InARow ((Directory.ofIds pairIds).Pass pairIds) 20 pairJoined r ∧
      (Directory.ofIds pairIds).ExactPointers pairIds r.node := by
  have hfirst : ((Directory.ofIds pairIds).info (biguintToNodeId 10)).address
      ≠ addressOf (biguintToNodeId 20) := pair_address_ne
  have hmembers : ∀ i, (Directory.ofIds pairIds).Member pairJoined i ↔ i ∈ pairIds := by
    refine fun i => ⟨fun hi => hi.1, fun hi => ⟨hi, ?_⟩⟩
    simp only [pairIds, Finset.mem_insert, Finset.mem_singleton] at hi
    rcases hi with rfl | rfl
    · have hidle : pairStart.task ((Directory.ofIds pairIds).info (biguintToNodeId 10)).address
          = .idle := pairStart_founded.idle
      have htask : pairJoined.task ((Directory.ofIds pairIds).info (biguintToNodeId 10)).address
          = .idle := by
        simp [pairJoined, RingState.setNode, RingState.setTask_task_of_ne hfirst, hidle]
      rw [htask]
      trivial
    · show ((RingState.setTask _ _ _).task _).Joined
      rw [show ((Directory.ofIds pairIds).info (biguintToNodeId 20)).address
        = addressOf (biguintToNodeId 20) from rfl, RingState.setTask_task_self]
      trivial
  have hconverges := ring_converges _ _ _ pairJoined pairIds 20 pairStart_founded
    pairJoined_reachable hmembers (by decide)
  obtain ⟨r, hrow⟩ := hconverges.1
  have hlast : ∀ i, (Directory.ofIds pairIds).Member r i ↔ i ∈ pairIds := by
    cases hrow with
    | more _ last => exact last.1
  exact ⟨r, hrow, hconverges.2 r hrow ∅ r .refl hlast⟩

end TaceChat
