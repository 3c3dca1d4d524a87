import TaceChat.Library.NewMember
import TaceChat.Proofs.FixedPoint

/-!
# A join heals

A new node `d` has some member of a correct ring `R` as its successor. Its stabilizations walk
backwards along the predecessors of the ring (`Searching`), until the node after `d` takes it as
its predecessor (`Accepted`). Then one stabilization of the node before `d` makes the pointers of
the larger ring exact. The rounds of the other nodes change no pointers meanwhile.
-/

set_option autoImplicit false

namespace TaceChat

open IdCircle Network

namespace Directory

variable {D : Directory} {net : Network Unit} {depth : ℕ}

/-! ### Single rounds -/

/-- The successor reports no node between: the node keeps its successor. -/
theorem answered_keep (hrun : D.Runs net) {i s : NodeId} (hi : i ∈ D.ids)
    (hsucc : (D.at' net.node i).successor = D.info s)
    (hkeep : ∀ x, (D.at' net.node s).predecessor = some x → isBetween x.id i s ≠ true) :
    net.answered (D.info i).address = net := by
  have hself : (net.node (D.info i).address).info = D.info i := hrun.info i hi
  have hsucc : (net.node (D.info i).address).successor = D.info s := hsucc
  unfold answered
  rw [hsucc]
  cases hx : (net.node (D.info s).address).predecessor with
  | none => exact setNode_same
  | some x =>
    -- The reported node does not lie between, so nothing is written.
    have hnot := hkeep x hx
    rw [ChordNode.afterAnswer_keep (by rwa [hself, hsucc, D.info_id, D.info_id]), setNode_same]

/-- The successor reports a node between: the node adopts it. -/
theorem answered_adopt (hrun : D.Runs net) {i s x : NodeId} (hi : i ∈ D.ids)
    (hsucc : (D.at' net.node i).successor = D.info s)
    (hpred : (D.at' net.node s).predecessor = some (D.info x)) (hx : isBetween x i s = true) :
    net.answered (D.info i).address
      = net.setNode (D.info i).address { D.at' net.node i with successor := D.info x } := by
  have hself : (net.node (D.info i).address).info = D.info i := hrun.info i hi
  have hsucc : (net.node (D.info i).address).successor = D.info s := hsucc
  have hpred : (net.node (D.info s).address).predecessor = some (D.info x) := hpred
  unfold answered
  rw [hsucc, hpred, ChordNode.afterAnswer_adopt (by rwa [hself, hsucc, D.info_id, D.info_id,
    D.info_id])]
  rfl

/-- The successor has a predecessor that the node does not come after: it refuses. -/
theorem notified_refuse (hrun : D.Runs net) {i s p : NodeId} (hi : i ∈ D.ids) (hs : s ∈ D.ids)
    (hsucc : (D.at' net.node i).successor = D.info s)
    (hpred : (D.at' net.node s).predecessor = some (D.info p)) (hp : isBetween i p s ≠ true) :
    net.notified (D.info i).address = net := by
  have hself : (net.node (D.info i).address).info = D.info i := hrun.info i hi
  have hother : (net.node (D.info s).address).info = D.info s := hrun.info s hs
  have hsucc : (net.node (D.info i).address).successor = D.info s := hsucc
  refine notified_refused (Or.inr ?_)
  rw [hself, hsucc]
  refine ChordNode.notifyUpdate_refuse (p := D.info p) hpred ?_
  rwa [hother, D.info_id, D.info_id, D.info_id]

/-- The node comes after the predecessor of its successor, if it has one: the successor takes the
node as its predecessor. -/
theorem notified_accept (hrun : D.Runs net) {i s : NodeId} (hi : i ∈ D.ids) (hs : s ∈ D.ids)
    (hne : i ≠ s) (hsucc : (D.at' net.node i).successor = D.info s)
    (hpred : ∀ x, (D.at' net.node s).predecessor = some x → isBetween i x.id s = true) :
    net.notified (D.info i).address = net.setNode (D.info s).address
      { D.at' net.node s with
        predecessor := some (D.info i)
        successor := if (D.at' net.node s).successor.id = s then D.info i
          else (D.at' net.node s).successor } := by
  have hself : (net.node (D.info i).address).info = D.info i := hrun.info i hi
  have hother : (net.node (D.info s).address).info = D.info s := hrun.info s hs
  have hsucc : (net.node (D.info i).address).successor = D.info s := hsucc
  -- The guard of `notify` compares with the predecessor that the successor has.
  have hbetween : ∀ x, (net.node (D.info s).address).predecessor = some x →
      isBetween (D.info i).id x.id (net.node (D.info s).address).info.id = true := by
    intro x hx
    rw [hother, D.info_id, D.info_id]
    exact hpred x hx
  refine (notified_accepted ?_ (by
    rw [hself, hsucc]
    exact ChordNode.notifyUpdate_accept hbetween)).trans ?_
  · rw [hself, hsucc, hother, D.info_id, D.info_id]
    exact hne
  · have hid : (net.node (D.info s).address).info.id = s := by rw [hother, D.info_id]
    rw [hsucc, hid]
    rfl

/-! ### The phases -/

section Phases

variable (D) (R : Finset NodeId) (d : NodeId)

/-- The new node looks for the node after it: `k` bounds the members of the ring from the new
node up to its successor. -/
structure Searching (k : ℕ) (net : Network Unit) : Prop where
  exact : D.ExactPointers R net.node
  predecessor : (D.at' net.node d).predecessor = none
  successor : ∃ s ∈ R, (D.at' net.node d).successor = D.info s ∧ (upTo R d s).card ≤ k

/-- The node after the new node has taken it as its predecessor. The only node of a ring has
taken it as its successor too. -/
structure Accepted (net : Network Unit) : Prop where
  successor : ∀ i ∈ R, (D.at' net.node i).successor =
    if R.card = 1 then D.info d else D.info (next R i)
  predecessor : ∀ i ∈ R, (D.at' net.node i).predecessor =
    some (D.info (if i = next R d then d else prev R i))
  newSuccessor : (D.at' net.node d).successor = D.info (next R d)
  newPredecessor : (D.at' net.node d).predecessor = none

/-- Every phase of the join, with the number of rounds that the new node still needs. -/
def Joining (k : ℕ) (net : Network Unit) : Prop :=
  D.Searching R d k net ∨ D.Accepted R d net ∨ D.ExactPointers (insert d R) net.node

end Phases

section Steps

variable {R : Finset NodeId} {d : NodeId}

/-- The tables and the data do not matter to the search. -/
theorem Searching.congr {k : ℕ} {net' : Network Unit} (h : D.Searching R d k net)
    (hsame : SamePointers net net') : D.Searching R d k net' where
  exact := hsame.exactPointers h.exact
  predecessor := (hsame.predecessor _).trans h.predecessor
  successor := by
    obtain ⟨s, hs, hsucc, hk⟩ := h.successor
    exact ⟨s, hs, (hsame.successor _).trans hsucc, hk⟩

/-- Nor do they once the new node is accepted. -/
theorem Accepted.congr {net' : Network Unit} (h : D.Accepted R d net)
    (hsame : SamePointers net net') : D.Accepted R d net' where
  successor i hi := (hsame.successor _).trans (h.successor i hi)
  predecessor i hi := (hsame.predecessor _).trans (h.predecessor i hi)
  newSuccessor := (hsame.successor _).trans h.newSuccessor
  newPredecessor := (hsame.predecessor _).trans h.newPredecessor

variable (hids : D.ids = insert d R) (hd : d ∉ R)

include hids hd

/-- A new node whose successor is the node after it is accepted when it notifies. -/
theorem accepted_of_notified (hrun : D.Runs net) (hexact : D.ExactPointers R net.node)
    (hpred : (D.at' net.node d).predecessor = none) (hR : R.Nonempty)
    (hsucc : (D.at' net.node d).successor = D.info (next R d)) :
    D.Accepted R d (net.notified (D.info d).address) := by
  have hdm : d ∈ D.ids := hids ▸ Finset.mem_insert_self d R
  have hsub : ∀ i ∈ R, i ∈ D.ids := fun i hi => hids ▸ Finset.mem_insert_of_mem hi
  have hn : next R d ∈ R := next_mem hR d
  have hdn : d ≠ next R d := fun h => hd (h ▸ hn)
  have hpredn := hexact.predecessor _ hn
  have hbetween : ∀ x, (D.at' net.node (next R d)).predecessor = some x →
      isBetween d x.id (next R d) = true := by
    intro x hx
    rw [hpredn, predecessorIn] at hx
    split at hx
    · cases hx
    · rename_i hone
      cases hx
      -- The new node lies between the node before it and the node after it.
      rw [D.info_id, isBetween_iff]
      exact (inArc_prev_iff hd (one_lt_card hR hone) hn).mpr rfl
  rw [notified_accept hrun hdm (hsub _ hn) hdn hsucc hbetween]
  -- A member that is not the next one has company.
  have hmore : ∀ i ∈ R, i ≠ next R d → ¬R.card = 1 := fun i hi hin =>
    (Finset.one_lt_card.mpr ⟨i, hi, _, hn, hin⟩).ne'
  refine ⟨fun i hi => ?_, fun i hi => ?_, ?_, ?_⟩
  · rw [at'_setNode (hsub _ hn) (hsub i hi)]
    by_cases hin : i = next R d
    · rw [if_pos hin, hin]
      simp only [hexact.successor _ hn, D.info_id, next_eq_self_iff hn]
    · rw [if_neg hin, if_neg (hmore i hi hin), hexact.successor i hi]
  · rw [at'_setNode (hsub _ hn) (hsub i hi)]
    by_cases hin : i = next R d
    · rw [if_pos hin, if_pos hin]
    · rw [if_neg hin, if_neg hin, hexact.predecessor i hi, predecessorIn,
        if_neg (hmore i hi hin)]
  · rw [at'_setNode (hsub _ hn) hdm, if_neg hdn]
    exact hsucc
  · rw [at'_setNode (hsub _ hn) hdm, if_neg hdn]
    exact hpred

/-- The node after the new node reports no node between the two. -/
theorem Searching.answered_next (hrun : D.Runs net) {k : ℕ} (h : D.Searching R d k net)
    (hR : R.Nonempty) (hsucc : (D.at' net.node d).successor = D.info (next R d)) :
    net.answered (D.info d).address = net := by
  have hn : next R d ∈ R := next_mem hR d
  refine answered_keep hrun (hids ▸ Finset.mem_insert_self d R) hsucc fun x hx => ?_
  rw [h.exact.predecessor _ hn, predecessorIn] at hx
  split at hx
  · cases hx
  · rename_i hone
    cases hx
    rw [D.info_id, prev_next_of_notMem hd hR, ne_eq, isBetween_iff]
    intro hin
    -- The member before `d` would be the member after it.
    have hp : prev R d ∈ R := prev_mem hR d
    have hdn : d ≠ next R d := fun heq => hd (heq ▸ hn)
    have hle := (inArc_iff_arc_le hdn).mp hin
    have heq := arc_inj_right (Nat.le_antisymm hle (arc_next_le hp d))
    have hnp := next_prev_of_notMem hd hR
    rw [heq] at hnp
    exact next_ne_self (one_lt_card hR hone) hnp

/-- Any other member reports the member before it, and the new node adopts that one. -/
theorem Searching.answered_back (hrun : D.Runs net) {k : ℕ} (h : D.Searching R d k net)
    {s : NodeId} (hs : s ∈ R) (hsucc : (D.at' net.node d).successor = D.info s)
    (hk : (upTo R d s).card ≤ k) (hsn : s ≠ next R d) :
    D.Runs (net.answered (D.info d).address) ∧
      D.Searching R d (k - 1) (net.answered (D.info d).address) ∧
      (D.at' (net.answered (D.info d).address).node d).successor = D.info (prev R s) := by
  have hdm : d ∈ D.ids := hids ▸ Finset.mem_insert_self d R
  have hds : d ≠ s := fun heq => hd (heq ▸ hs)
  have hcard : 1 < R.card :=
    Finset.one_lt_card.mpr ⟨s, hs, next R d, next_mem ⟨s, hs⟩ d, hsn⟩
  -- Seen from `d`, the member before `s` comes earlier than `s` unless `s` is the first.
  have hlt := arc_prev_lt hs hsn
  have hpreds : (D.at' net.node s).predecessor = some (D.info (prev R s)) := by
    rw [h.exact.predecessor s hs, predecessorIn, if_neg (by omega)]
  have hin : isBetween (prev R s) d s = true := by
    rw [isBetween_iff, inArc_iff_arc_le hds]
    exact Nat.le_of_lt hlt
  rw [answered_adopt hrun hdm hsucc hpreds hin]
  -- The write is at the new node, which is not a member.
  have hat : ∀ n : ChordNode, ∀ i ∈ R,
      D.at' (net.setNode (D.info d).address n).node i = D.at' net.node i := by
    intro n i hi
    have hid : i ≠ d := fun heq => hd (heq ▸ hi)
    rw [at'_setNode hdm (hids ▸ Finset.mem_insert_of_mem hi), if_neg hid]
  have hnew : ∀ n : ChordNode, D.at' (net.setNode (D.info d).address n).node d = n := by
    intro n
    rw [at'_setNode hdm hdm, if_pos rfl]
  -- The way back leaves at least `s` behind, so the search gets shorter.
  have hless : (upTo R d (prev R s)).card < (upTo R d s).card := by
    refine Finset.card_lt_card ⟨fun c hc => ?_, fun hsuper => ?_⟩
    · rw [upTo, Finset.mem_filter] at hc ⊢
      exact ⟨hc.1, by omega⟩
    · have hmem : s ∈ upTo R d (prev R s) := hsuper (Finset.mem_filter.mpr ⟨hs, Nat.le_refl _⟩)
      have := (Finset.mem_filter.mp hmem).2
      omega
  refine ⟨hrun.setNode hdm (hrun.info d hdm), ⟨⟨fun i hi => ?_, fun i hi => ?_⟩, ?_, ?_⟩, ?_⟩
  · rw [hat _ i hi]
    exact h.exact.successor i hi
  · rw [hat _ i hi]
    exact h.exact.predecessor i hi
  · rw [hnew]
    exact h.predecessor
  · exact ⟨prev R s, prev_mem ⟨s, hs⟩ s, by rw [hnew], by omega⟩
  · rw [hnew]

/-- The notification of the new node: the node after it accepts, any other member refuses. -/
theorem Searching.notified (hrun : D.Runs net) {k : ℕ} (h : D.Searching R d k net) {t : NodeId}
    (ht : t ∈ R) (hsucc : (D.at' net.node d).successor = D.info t) :
    t = next R d ∧ D.Accepted R d (net.notified (D.info d).address) ∨
      t ≠ next R d ∧ net.notified (D.info d).address = net := by
  by_cases htn : t = next R d
  · exact Or.inl ⟨htn, accepted_of_notified hids hd hrun h.exact h.predecessor ⟨t, ht⟩
      (htn ▸ hsucc)⟩
  · refine Or.inr ⟨htn, ?_⟩
    have hcard : 1 < R.card :=
      Finset.one_lt_card.mpr ⟨t, ht, next R d, next_mem ⟨t, ht⟩ d, htn⟩
    have hpredt := h.exact.predecessor t ht
    rw [predecessorIn, if_neg (by omega)] at hpredt
    refine notified_refuse hrun (hids ▸ Finset.mem_insert_self d R)
      (hids ▸ Finset.mem_insert_of_mem ht) hsucc hpredt ?_
    -- The new node lies between a member and the one before it only in front of the next one.
    rw [ne_eq, isBetween_iff, inArc_prev_iff hd hcard ht]
    exact htn

omit hids hd in
/-- A round of a member whose successor before and after the answer is a member. -/
theorem stabilize_member (hrun : D.Runs net) {i s t : NodeId} (hi : i ∈ D.ids) (hs : s ∈ D.ids)
    (ht : t ∈ D.ids) (his : i ≠ s) (hsucc : (D.at' net.node i).successor = D.info s)
    (hsucc' : (D.at' (net.answered (D.info i).address).node i).successor = D.info t) :
    Returns (stabilize (env reliable (depth + 3) (D.info i).address)) net fun _ net' =>
      D.Runs net' ∧
        SamePointers ((net.answered (D.info i).address).notified (D.info i).address) net' := by
  have hself : (net.node (D.info i).address).info = D.info i := hrun.info i hi
  have hsucc : (net.node (D.info i).address).successor = D.info s := hsucc
  have hsucc' : ((net.answered (D.info i).address).node (D.info i).address).successor
    = D.info t := hsucc'
  have hne : (net.node (D.info i).address).info.id
      ≠ (net.node (D.info i).address).successor.id := by
    rw [hself, hsucc, D.info_id, D.info_id]
    exact his
  refine (stabilize_outside hne ?_ ?_).mono fun _ net' hsame =>
    ⟨hsame.toSamePointers.runs ?_, hsame.toSamePointers⟩
  · rw [hsucc]
    exact hrun.listening s hs
  · rw [hsucc']
    exact hrun.listening t ht
  · -- The answer and the notification change pointers only.
    obtain ⟨hlisten, hinfo⟩ :=
      notified_info (D.info i).address (net.answered (D.info i).address)
    refine ⟨fun j hj => ?_, fun j hj => ?_⟩
    · exact (hinfo _).trans ((answered_info _).trans (hrun.info j hj))
    · rw [hlisten, answered_listening]
      exact hrun.listening j hj

/-- A round of the searching node leads one node back, or is accepted. -/
theorem Searching.round (hrun : D.Runs net) {k : ℕ} (h : D.Searching R d k net) :
    Returns (stabilize (env reliable (depth + 3) (D.info d).address)) net fun _ net' =>
      D.Runs net' ∧ (D.Searching R d (k - 1) net' ∨ D.Accepted R d net') := by
  obtain ⟨s, hs, hsucc, hk⟩ := h.successor
  have hdm : d ∈ D.ids := hids ▸ Finset.mem_insert_self d R
  have hsub : ∀ i ∈ R, i ∈ D.ids := fun i hi => hids ▸ Finset.mem_insert_of_mem hi
  have hds : d ≠ s := fun heq => hd (heq ▸ hs)
  by_cases hsn : s = next R d
  · -- The successor is the right one already. This round only notifies it.
    have hkeep := h.answered_next hids hd hrun ⟨s, hs⟩ (hsn ▸ hsucc)
    have hsucc' : (D.at' (net.answered (D.info d).address).node d).successor = D.info s := by
      rw [hkeep]
      exact hsucc
    refine (stabilize_member hrun hdm (hsub s hs) (hsub s hs) hds hsucc hsucc').mono ?_
    rintro - net' ⟨hrun', hsame⟩
    rw [hkeep] at hsame
    rcases h.notified hids hd hrun hs hsucc with ⟨-, haccepted⟩ | ⟨hne, -⟩
    · exact ⟨hrun', Or.inr (haccepted.congr hsame)⟩
    · exact absurd hsn hne
  · -- The round adopts the member before the successor and notifies that one.
    obtain ⟨hrun₁, h₁, hsucc₁⟩ := h.answered_back hids hd hrun hs hsucc hk hsn
    have hp : prev R s ∈ R := prev_mem ⟨s, hs⟩ s
    refine (stabilize_member hrun hdm (hsub s hs) (hsub _ hp) hds hsucc hsucc₁).mono ?_
    rintro - net' ⟨hrun', hsame⟩
    rcases h₁.notified hids hd hrun₁ hp hsucc₁ with ⟨-, haccepted⟩ | ⟨-, hrefused⟩
    · exact ⟨hrun', Or.inr (haccepted.congr hsame)⟩
    · rw [hrefused] at hsame
      exact ⟨hrun', Or.inl (h₁.congr hsame)⟩

/-- The rounds that leave the accepted state: those of the new node and of all members but the
one before it. -/
theorem Accepted.round_other (hrun : D.Runs net) (h : D.Accepted R d net) (hR : R.Nonempty)
    {i : NodeId} (hi : i ∈ D.ids) (hip : i ≠ prev R d) :
    Returns (stabilize (env reliable (depth + 3) (D.info i).address)) net fun _ net' =>
      D.Runs net' ∧ D.Accepted R d net' := by
  have hsub : ∀ i ∈ R, i ∈ D.ids := fun i hi => hids ▸ Finset.mem_insert_of_mem hi
  -- The successor of the node has this node as its predecessor already.
  obtain ⟨s, hs, his, hsucc, hpred⟩ : ∃ s ∈ D.ids, i ≠ s ∧
      (D.at' net.node i).successor = D.info s ∧
      (D.at' net.node s).predecessor = some (D.info i) := by
    have hn : next R d ∈ R := next_mem hR d
    rcases Finset.mem_insert.mp (hids ▸ hi) with rfl | hiR
    · refine ⟨next R i, hsub _ hn, fun heq => hd (heq ▸ hn), h.newSuccessor, ?_⟩
      rw [h.predecessor _ hn, if_pos rfl]
    · have hcard : 1 < R.card := Finset.one_lt_card.mpr ⟨i, hiR, prev R d, prev_mem hR d, hip⟩
      have hni : next R i ∈ R := next_mem hR i
      refine ⟨next R i, hsub _ hni, Ne.symm (next_ne_self hcard), ?_, ?_⟩
      · rw [h.successor i hiR, if_neg (by omega)]
      · have hne : next R i ≠ next R d := by
          intro heq
          have hprev := prev_next hiR
          rw [heq, prev_next_of_notMem hd hR] at hprev
          exact hip hprev.symm
        rw [h.predecessor _ hni, if_neg hne, prev_next hiR]
  have hkeep : net.answered (D.info i).address = net := by
    refine answered_keep hrun hi hsucc fun x hx => ?_
    rw [hpred] at hx
    cases hx
    rw [D.info_id]
    exact isBetween_start i s
  have hsucc' : (D.at' (net.answered (D.info i).address).node i).successor = D.info s := by
    rw [hkeep]
    exact hsucc
  refine (stabilize_member hrun hi hs hs his hsucc hsucc').mono ?_
  rintro - net' ⟨hrun', hsame⟩
  rw [hkeep, notified_refuse hrun hi hs hsucc hpred (isBetween_start i s)] at hsame
  exact ⟨hrun', h.congr hsame⟩

/-- The node before the new node adopts it, or has adopted it already as the only node of the
ring. -/
theorem Accepted.answered_prev (hrun : D.Runs net) (h : D.Accepted R d net) (hR : R.Nonempty) :
    net.answered (D.info (prev R d)).address = net.setNode (D.info (prev R d)).address
      { D.at' net.node (prev R d) with successor := D.info d } := by
  have hp : prev R d ∈ R := prev_mem hR d
  have hn : next R d ∈ R := next_mem hR d
  have hpm : prev R d ∈ D.ids := hids ▸ Finset.mem_insert_of_mem hp
  have hsucc := h.successor _ hp
  by_cases hone : R.card = 1
  · rw [if_pos hone] at hsucc
    -- The only node of the ring has the new node as its successor since it was notified.
    have hkeep := answered_keep hrun hpm hsucc fun x hx => by
      rw [h.newPredecessor] at hx
      cases hx
    rw [hkeep, ← hsucc]
    exact setNode_same.symm
  · rw [if_neg hone, next_prev_of_notMem hd hR] at hsucc
    have hpred := h.predecessor _ hn
    rw [if_pos rfl] at hpred
    refine answered_adopt hrun hpm hsucc hpred ?_
    rw [isBetween_iff, ← prev_next_of_notMem hd hR]
    exact (inArc_prev_iff hd (one_lt_card hR hone) hn).mpr rfl

omit hids in
/-- The pointers of the larger ring, by those of the smaller one. -/
theorem exactPointers_insert (hR : R.Nonempty) {nodes : String → ChordNode}
    (hsucc : ∀ i ∈ R, (D.at' nodes i).successor
      = D.info (if i = prev R d then d else next R i))
    (hpred : ∀ i ∈ R, (D.at' nodes i).predecessor
      = some (D.info (if i = next R d then d else prev R i)))
    (hnewSucc : (D.at' nodes d).successor = D.info (next R d))
    (hnewPred : (D.at' nodes d).predecessor = some (D.info (prev R d))) :
    D.ExactPointers (insert d R) nodes where
  successor i hi := by
    rcases Finset.mem_insert.mp hi with rfl | hiR
    · rw [hnewSucc, next_insert_new hR]
    · rw [hsucc i hiR]
      by_cases hip : i = prev R d
      · rw [if_pos hip, hip, next_insert_prev hd hR]
      · rw [if_neg hip, next_insert_of_ne hd hiR hip]
  predecessor i hi := by
    have hcard : (insert d R).card ≠ 1 := by
      rw [Finset.card_insert_of_notMem hd]
      have := Finset.card_pos.mpr hR
      omega
    rw [predecessorIn, if_neg hcard]
    rcases Finset.mem_insert.mp hi with rfl | hiR
    · rw [hnewPred, prev_insert_new hd hR]
    · rw [hpred i hiR]
      by_cases hin : i = next R d
      · rw [if_pos hin, hin, prev_insert_next hR]
      · rw [if_neg hin, prev_insert_of_ne hd hiR hin]

/-- Then it notifies the new node, and the pointers of the larger ring are exact. -/
theorem Accepted.notified_prev (hrun : D.Runs net) (h : D.Accepted R d net) (hR : R.Nonempty) :
    D.ExactPointers (insert d R)
      ((net.answered (D.info (prev R d)).address).notified (D.info (prev R d)).address).node := by
  have hdm : d ∈ D.ids := hids ▸ Finset.mem_insert_self d R
  have hp : prev R d ∈ R := prev_mem hR d
  have hn : next R d ∈ R := next_mem hR d
  have hsub : ∀ i ∈ R, i ∈ D.ids := fun i hi => hids ▸ Finset.mem_insert_of_mem hi
  have hpd : prev R d ≠ d := fun heq => hd (heq ▸ hp)
  have hnd : next R d ≠ d := fun heq => hd (heq ▸ hn)
  rw [h.answered_prev hids hd hrun hR]
  have hrun₁ := hrun.setNode (n := { D.at' net.node (prev R d) with successor := D.info d })
    (hsub _ hp) (hrun.info _ (hsub _ hp))
  -- The adoption is a write at another node, so the new node still has no predecessor.
  have hold : D.at' (net.setNode (D.info (prev R d)).address
      { D.at' net.node (prev R d) with successor := D.info d }).node d = D.at' net.node d := by
    rw [at'_setNode (hsub _ hp) hdm, if_neg (Ne.symm hpd)]
  have hsucc₁ : (D.at' (net.setNode (D.info (prev R d)).address
      { D.at' net.node (prev R d) with successor := D.info d }).node (prev R d)).successor
        = D.info d := by
    rw [at'_setNode (hsub _ hp) (hsub _ hp), if_pos rfl]
  have haccept := notified_accept hrun₁ (hsub _ hp) hdm hpd hsucc₁ fun x hx => by
    rw [hold, h.newPredecessor] at hx
    cases hx
  rw [haccept, hold, h.newSuccessor, D.info_id, if_neg hnd]
  refine exactPointers_insert hd hR (fun i hi => ?_) (fun i hi => ?_) ?_ ?_
  · have hid : i ≠ d := fun heq => hd (heq ▸ hi)
    rw [at'_setNode hdm (hsub i hi), if_neg hid, at'_setNode (hsub _ hp) (hsub i hi)]
    by_cases hip : i = prev R d
    · rw [if_pos hip, if_pos hip]
    · have hone : ¬R.card = 1 := (Finset.one_lt_card.mpr ⟨i, hi, _, hp, hip⟩).ne'
      rw [if_neg hip, if_neg hip, h.successor i hi, if_neg hone]
  · have hid : i ≠ d := fun heq => hd (heq ▸ hi)
    rw [at'_setNode hdm (hsub i hi), if_neg hid, at'_setNode (hsub _ hp) (hsub i hi),
      ← h.predecessor i hi]
    by_cases hip : i = prev R d
    · rw [if_pos hip, hip]
    · rw [if_neg hip]
  · rw [at'_setNode hdm hdm, if_pos rfl]
  · rw [at'_setNode hdm hdm, if_pos rfl]

/-- The stabilization of the node before the new one makes all pointers exact. -/
theorem Accepted.round_prev (hrun : D.Runs net) (h : D.Accepted R d net) (hR : R.Nonempty) :
    Returns (stabilize (env reliable (depth + 3) (D.info (prev R d)).address)) net fun _ net' =>
      D.Runs net' ∧ D.ExactPointers (insert d R) net'.node := by
  have hdm : d ∈ D.ids := hids ▸ Finset.mem_insert_self d R
  have hp : prev R d ∈ R := prev_mem hR d
  have hpm : prev R d ∈ D.ids := hids ▸ Finset.mem_insert_of_mem hp
  have hsucc₁ : (D.at' (net.answered (D.info (prev R d)).address).node (prev R d)).successor
      = D.info d := by
    rw [h.answered_prev hids hd hrun hR, at'_setNode hpm hpm, if_pos rfl]
  -- Before this round the successor was a member, or the new node itself in a ring of one.
  obtain ⟨s, hs, hps, hsucc⟩ : ∃ s ∈ D.ids, prev R d ≠ s ∧
      (D.at' net.node (prev R d)).successor = D.info s := by
    by_cases hone : R.card = 1
    · exact ⟨d, hdm, fun heq => hd (heq ▸ hp), by rw [h.successor _ hp, if_pos hone]⟩
    · exact ⟨next R (prev R d), hids ▸ Finset.mem_insert_of_mem (next_mem hR _),
        Ne.symm (next_ne_self (one_lt_card hR hone)), by rw [h.successor _ hp, if_neg hone]⟩
  refine (stabilize_member hrun hpm hs hdm hps hsucc hsucc₁).mono ?_
  rintro - net' ⟨hrun', hsame⟩
  exact ⟨hrun', hsame.exactPointers (h.notified_prev hids hd hrun hR)⟩

/-! ### Runs -/

omit hids hd in
/-- A round of a member of a ring with exact pointers. -/
theorem ExactPointers.round (hrun : D.Runs net) {R' : Finset NodeId} (hsub : R' ⊆ D.ids)
    (h : D.ExactPointers R' net.node) {i : NodeId} (hi : i ∈ R') :
    Returns (stabilize (env reliable (depth + 3) (D.info i).address)) net fun _ net' =>
      D.Runs net' ∧ SamePointers net net' := by
  refine (stabilize_exact hrun hsub h hi).mono ?_
  rintro - net' ⟨list, rfl, -, -⟩
  exact ⟨(SamePointers.withList _ _ _).runs hrun, .withList _ _ _⟩

/-- Any round moves the join forward, and a round of the new node while it searches counts. -/
theorem Joining.round (hrun : D.Runs net) (hR : R.Nonempty) {k : ℕ} (h : D.Joining R d k net)
    {i : NodeId} (hi : i ∈ D.ids) :
    Returns (stabilize (env reliable (depth + 3) (D.info i).address)) net fun _ net' =>
      D.Runs net' ∧ D.Joining R d (if i = d then k - 1 else k) net' := by
  rcases h with h | h | h
  · -- While the new node searches, the members have exact pointers and change nothing.
    by_cases hid : i = d
    · subst hid
      refine (h.round hids hd hrun).mono ?_
      rintro - net' ⟨hrun', h' | h'⟩
      · exact ⟨hrun', Or.inl (by rwa [if_pos rfl])⟩
      · exact ⟨hrun', Or.inr (Or.inl h')⟩
    · have hiR : i ∈ R := (Finset.mem_insert.mp (hids ▸ hi)).resolve_left hid
      have hsub : R ⊆ D.ids := hids ▸ Finset.subset_insert d R
      refine (h.exact.round hrun hsub hiR).mono ?_
      rintro - net' ⟨hrun', hsame⟩
      exact ⟨hrun', Or.inl (by rw [if_neg hid]; exact h.congr hsame)⟩
  · -- Once it is accepted, only the node before it has something to change.
    by_cases hip : i = prev R d
    · subst hip
      refine (h.round_prev hids hd hrun hR).mono ?_
      rintro - net' ⟨hrun', h'⟩
      exact ⟨hrun', Or.inr (Or.inr h')⟩
    · refine (h.round_other hids hd hrun hR hi hip).mono ?_
      rintro - net' ⟨hrun', h'⟩
      exact ⟨hrun', Or.inr (Or.inl h')⟩
  · refine (h.round hrun hids.ge (hids ▸ hi)).mono ?_
    rintro - net' ⟨hrun', hsame⟩
    exact ⟨hrun', Or.inr (Or.inr (hsame.exactPointers h))⟩

/-- After a sequence of rounds, as many rounds fewer are needed as the new node has run. -/
theorem Joining.rounds (hR : R.Nonempty) (rounds : List NodeId) :
    ∀ {net : Network Unit} {k : ℕ}, D.Runs net → D.Joining R d k net →
      (∀ i ∈ rounds, i ∈ D.ids) →
      Returns (forM rounds fun i => stabilize (env reliable (depth + 3) (D.info i).address)) net
        fun _ net' => D.Runs net' ∧ D.Joining R d (k - rounds.count d) net' := by
  induction rounds with
  | nil => exact fun hrun h _ => returns_pure.mpr ⟨hrun, h⟩
  | cons i rounds ih =>
    intro net k hrun h hmem
    obtain ⟨hi, hmem⟩ := List.forall_mem_cons.mp hmem
    rw [List.forM_cons]
    refine (h.round hids hd hrun hR hi).bind ?_
    rintro - net₁ ⟨hrun₁, h₁⟩
    refine (ih hrun₁ h₁ hmem).mono ?_
    rintro - net' ⟨hrun', h'⟩
    refine ⟨hrun', ?_⟩
    -- A round of the new node takes one from the budget, any other round nothing.
    rw [List.count_cons]
    by_cases hid : i = d
    · rw [if_pos hid] at h'
      rw [if_pos (by simpa using hid), show k - (rounds.count d + 1) = k - 1 - rounds.count d by
        omega]
      exact h'
    · rw [if_neg hid] at h'
      rw [if_neg (by simpa using hid)]
      exact h'

omit hids hd in
/-- A node that has run often enough does not search any more. -/
theorem Joining.done (h : D.Joining R d 0 net) :
    D.Accepted R d net ∨ D.ExactPointers (insert d R) net.node := by
  refine h.resolve_left ?_
  rintro ⟨-, -, s, hs, -, hk⟩
  -- A search with no budget left would have no member to be at.
  have hmem : s ∈ upTo R d s := Finset.mem_filter.mpr ⟨hs, Nat.le_refl _⟩
  rw [Finset.card_eq_zero.mp (Nat.le_zero.mp hk)] at hmem
  exact Finset.notMem_empty s hmem

end Steps

end Directory

/-- A single join heals. The ring `R` of `n` nodes has exact pointers. The new node `d` has no
predecessor and any node of the ring as its successor. Once `d` has stabilized `n` times, the next
stabilization of the node before it makes the pointers of the `n + 1` nodes exact, whatever other
rounds there are before and after it. -/
theorem join_heals (D : Directory) (R : Finset NodeId) (d s : NodeId) (net : Network Unit)
    (depth : ℕ) (before after : List NodeId) (hids : D.ids = insert d R) (hd : d ∉ R)
    (hrun : D.Runs net) (hexact : D.ExactPointers R net.node) (hs : s ∈ R)
    (hsucc : (D.at' net.node d).successor = D.info s)
    (hpred : (D.at' net.node d).predecessor = none) (hbefore : ∀ i ∈ before, i ∈ D.ids)
    (hafter : ∀ i ∈ after, i ∈ D.ids) (hcount : R.card ≤ before.count d) :
    Returns (forM (before ++ prev R d :: after) fun i =>
        stabilize (env reliable (depth + 3) (D.info i).address)) net
      fun _ net' => D.ExactPointers D.ids net'.node := by
  have hR : R.Nonempty := ⟨s, hs⟩
  have hp : prev R d ∈ D.ids := hids ▸ Finset.mem_insert_of_mem (prev_mem hR d)
  have hstart : D.Joining R d R.card net :=
    Or.inl ⟨hexact, hpred, s, hs, hsucc, Finset.card_filter_le _ _⟩
  rw [List.forM_append]
  refine (Directory.Joining.rounds hids hd hR before hrun hstart hbefore).bind ?_
  rintro - net₁ ⟨hrun₁, h₁⟩
  rw [show R.card - before.count d = 0 by omega] at h₁
  rw [List.forM_cons]
  -- The node before the new one may have run earlier, and then the ring is healed already.
  have hhealed : Returns (stabilize (env reliable (depth + 3) (D.info (prev R d)).address)) net₁
      fun _ net' => D.Runs net' ∧ D.ExactPointers (insert d R) net'.node := by
    rcases h₁.done with h₁ | h₁
    · exact h₁.round_prev hids hd hrun₁ hR
    · refine (h₁.round hrun₁ hids.ge (Finset.mem_insert_of_mem (prev_mem hR d))).mono ?_
      rintro - net' ⟨hrun', hsame⟩
      exact ⟨hrun', hsame.exactPointers h₁⟩
  refine hhealed.bind ?_
  rintro - net₂ ⟨hrun₂, h₂⟩
  -- Exact pointers stay exact.
  refine (Returns.forM (I := fun net => D.Runs net ∧ D.ExactPointers (insert d R) net.node)
    (fun i hi net h => ?_) ⟨hrun₂, h₂⟩).mono fun _ _ h => hids ▸ h.2
  refine (h.2.round h.1 hids.ge (hids ▸ hafter i hi)).mono ?_
  rintro - net' ⟨hrun', hsame⟩
  exact ⟨hrun', hsame.exactPointers h.2⟩

/-- The node 10 alone in its ring, and the node 20 that has it as its successor. -/
def joiningPair : Network Unit :=
  Network.ofIds (linkedNode (fun _ => biguintToNodeId 10) fun _ => none)

/-- The node 10 is a ring of its own. -/
theorem joiningPair_exactPointers :
    (Directory.ofIds pairIds).ExactPointers {biguintToNodeId 10} joiningPair.node where
  successor i _ := by
    rw [next_singleton]
    exact congrArg ChordNode.successor (Directory.at'_ofIds pairIds _ i)
  predecessor i _ := by
    rw [Directory.predecessorIn, if_pos (Finset.card_singleton _)]
    exact congrArg ChordNode.predecessor (Directory.at'_ofIds pairIds _ i)

/-- Both nodes listen under their infos. -/
theorem joiningPair_runs : (Directory.ofIds pairIds).Runs joiningPair where
  info i _ := congrArg ChordNode.info (Directory.at'_ofIds pairIds _ i)
  listening _ _ := rfl

/-- `join_heals` for the join of the node 20 to the node 10. -/
theorem join_heals_joiningPair :
    Returns (forM [biguintToNodeId 20, biguintToNodeId 10] fun i =>
        stabilize (env reliable 3 (infoOf i).address)) joiningPair
      fun _ net' => (Directory.ofIds pairIds).ExactPointers pairIds net'.node := by
  have hids : pairIds = insert (biguintToNodeId 20) {biguintToNodeId 10} := by decide
  have hheal := join_heals (Directory.ofIds pairIds) {biguintToNodeId 10} (biguintToNodeId 20)
    (biguintToNodeId 10) joiningPair 0 [biguintToNodeId 20] [] hids (by decide)
    joiningPair_runs joiningPair_exactPointers (by decide)
    (congrArg ChordNode.successor (Directory.at'_ofIds pairIds _ _))
    (congrArg ChordNode.predecessor (Directory.at'_ofIds pairIds _ _))
    (fun i hi => List.mem_singleton.mp hi ▸ by decide) (fun i hi => by cases hi) (by decide)
  rw [prev_singleton] at hheal
  exact hheal

end TaceChat
