import TaceChat.Library.Winding
import TaceChat.Model.Interleaving
import TaceChat.Proofs.IdNetwork

/-!
# The ring stays a ring

`RingInvariant` holds in every state that the interleaved steps of joins and stabilizations reach.
Every node that has joined leads to the founder along the successors, and the founder winds to
itself: it lies on a cycle that goes round exactly once. The steps that change a successor rely on
what the invariant says of the predecessors. A recorded predecessor, and one that a reply carries,
winds to the node that recorded it (`Behind`), also when the reply is stale.

A successor changes in three ways. A node that joins was in nobody's walk (`Winds.congr_on`). A node
that writes its successor inserts a node that winds to the old one (`Winds.shortcut`). A node that
was alone and is notified opens its self-loop (`Winds.openLoop`).
-/

set_option autoImplicit false

namespace TaceChat

open IdCircle

namespace Directory

section
variable (D : Directory) (s : RingState)

/-- The node has joined the ring. -/
def Member (i : NodeId) : Prop := i ∈ D.ids ∧ (s.task (D.info i).address).Joined

/-- `x` is the info of a node of the ring that winds to `b`. -/
def Behind (b : NodeId) (x : NodeInfo) : Prop :=
  ∃ j, D.Member s j ∧ x = D.info j ∧ Winds (D.succ s.node) j b

/-- What holds of a node at a point of its own code. The successor stays as it was read until the
node writes it, and a node with a stabilization under way is not its own successor. -/
def TaskInvariant (i : NodeId) : Task → Prop
  | .named successorInfo => ∃ j, D.Member s j ∧ successorInfo = D.info j
  | .asking successor => successor = (D.at' s.node i).successor ∧ D.succ s.node i ≠ i
  | .answered successor x => successor = (D.at' s.node i).successor ∧ D.succ s.node i ≠ i ∧
      ∀ p, x = some p → D.Behind s (D.succ s.node i) p
  | .written => D.succ s.node i ≠ i
  | .notifying currentSuccessor =>
      currentSuccessor = (D.at' s.node i).successor ∧ D.succ s.node i ≠ i
  | _ => True

/-- The invariant. `leads` and `winds` are what is proved about the ring, `predecessor` and `task`
are what the writes of successors need. -/
structure RingInvariant (f : NodeId) : Prop where
  founder : D.Member s f
  participant : ∀ a, s.task a ≠ .outside → ∃ i ∈ D.ids, a = (D.info i).address
  info : ∀ i ∈ D.ids, (D.at' s.node i).info = D.info i
  successor : ∀ i, D.Member s i → ∃ j, D.Member s j ∧ (D.at' s.node i).successor = D.info j
  predecessor : ∀ i ∈ D.ids, ∀ p, (D.at' s.node i).predecessor = some p → D.Behind s i p
  leads : ∀ i, D.Member s i → Leads (D.succ s.node) f i
  winds : Winds (D.succ s.node) f f
  task : ∀ i ∈ D.ids, D.TaskInvariant s i (s.task (D.info i).address)

end

variable {D : Directory} {s r : RingState} {f i j k : NodeId} {t : Task}

/-- The successor of a member has joined. -/
theorem RingInvariant.succ_member (h : D.RingInvariant s f) (i : NodeId) (hi : D.Member s i) :
    D.Member s (D.succ s.node i) := by
  obtain ⟨j, hj, hsucc⟩ := h.successor i hi
  rw [succ, hsucc, D.info_id]
  exact hj

/-- The successor is held with its info. -/
theorem RingInvariant.successor_eq (h : D.RingInvariant s f) (hi : D.Member s i) :
    (D.at' s.node i).successor = D.info (D.succ s.node i) := by
  obtain ⟨j, -, hsucc⟩ := h.successor i hi
  rw [succ, hsucc, D.info_id]

/-- What holds of a node survives steps of other nodes that keep the walks. -/
theorem TaskInvariant.mono (h : D.TaskInvariant s i t)
    (hmember : ∀ j, D.Member s j → D.Member r j)
    (hwinds : ∀ j b, D.Member s j → Winds (D.succ s.node) j b → Winds (D.succ r.node) j b)
    (hsuccessor : (D.at' r.node i).successor = (D.at' s.node i).successor) :
    D.TaskInvariant r i t := by
  have hsucc : D.succ r.node i = D.succ s.node i := congrArg NodeInfo.id hsuccessor
  cases t with
  | named successorInfo =>
    obtain ⟨j, hj, hinfo⟩ := h
    exact ⟨j, hmember j hj, hinfo⟩
  | asking successor => exact ⟨h.1.trans hsuccessor.symm, hsucc ▸ h.2⟩
  | answered successor x =>
    refine ⟨h.1.trans hsuccessor.symm, hsucc ▸ h.2.1, fun p hp => ?_⟩
    obtain ⟨j, hj, hinfo, hw⟩ := h.2.2 p hp
    exact ⟨j, hmember j hj, hinfo, hsucc ▸ hwinds j _ hj hw⟩
  | written => exact fun heq => h (hsucc ▸ heq)
  | notifying currentSuccessor => exact ⟨h.1.trans hsuccessor.symm, hsucc ▸ h.2⟩
  | _ => trivial

/-! ### A step in a node's own code -/

/-- Only the task of one node changes. -/
theorem task_setTask (hi : i ∈ D.ids) (hj : j ∈ D.ids) :
    (s.setTask (D.info i).address t).task (D.info j).address
      = if j = i then t else s.task (D.info j).address := by
  split
  · rename_i heq
    rw [heq, RingState.setTask_task_self]
  · rename_i hne
    exact RingState.setTask_task_of_ne (fun heq => hne (D.address_inj j hj i hi heq)) t s

/-- No member leaves. -/
theorem member_setTask (hi : i ∈ D.ids) (hkeep : D.Member s i → t.Joined) (hj : D.Member s j) :
    D.Member (s.setTask (D.info i).address t) j := by
  refine ⟨hj.1, ?_⟩
  rw [task_setTask hi hj.1]
  split
  · rename_i heq
    exact hkeep (heq ▸ hj)
  · exact hj.2

/-- A node goes on in its own code. A node that joins by it has a member as its successor. -/
theorem RingInvariant.setTask (h : D.RingInvariant s f) (hi : i ∈ D.ids)
    (hkeep : D.Member s i → t.Joined)
    (hnew : t.Joined → D.Member s i ∨ ∃ j, D.Member s j ∧ (D.at' s.node i).successor = D.info j)
    (hok : D.TaskInvariant s i t) :
    D.RingInvariant (s.setTask (D.info i).address t) f := by
  have hmember : ∀ j, D.Member s j → D.Member (s.setTask (D.info i).address t) j := fun j hj =>
    member_setTask hi hkeep hj
  -- A member afterwards was a member before, or joins now with a member as its successor.
  have hold : ∀ j, D.Member (s.setTask (D.info i).address t) j →
      D.Member s j ∨ ∃ l, D.Member s l ∧ (D.at' s.node j).successor = D.info l := by
    intro j hj
    have htask := hj.2
    rw [task_setTask hi hj.1] at htask
    split at htask
    · rename_i heq
      exact heq ▸ hnew htask
    · exact Or.inl ⟨hj.1, htask⟩
  refine ⟨hmember f h.founder, fun a ha => ?_, h.info, fun j hj => ?_, fun j hj p hp => ?_,
    fun j hj => ?_, h.winds, fun j hj => ?_⟩
  · by_cases hai : a = (D.info i).address
    · exact ⟨i, hi, hai⟩
    · refine h.participant a fun hout => ha ?_
      rw [RingState.setTask_task_of_ne hai, hout]
  · rcases hold j hj with hj | ⟨l, hl, hsucc⟩
    · obtain ⟨l, hl, hsucc⟩ := h.successor j hj
      exact ⟨l, hmember l hl, hsucc⟩
    · exact ⟨l, hmember l hl, hsucc⟩
  · obtain ⟨l, hl, hinfo, hw⟩ := h.predecessor j hj p hp
    exact ⟨l, hmember l hl, hinfo, hw⟩
  · -- The walk of a node that joins starts with a step to a member, which leads to the founder.
    rcases hold j hj with hj | ⟨l, hl, hsucc⟩
    · exact h.leads j hj
    · have hstep : D.succ s.node j = l := by rw [succ, hsucc, D.info_id]
      refine .step ?_
      show Leads (D.succ s.node) f (D.succ s.node j)
      rw [hstep]
      exact h.leads l hl
  · -- The pointers are the same, so nothing changes for the other nodes.
    rw [task_setTask hi hj]
    split
    · rename_i heq
      subst heq
      exact hok.mono hmember (fun _ _ _ hw => hw) rfl
    · exact (h.task j hj).mono hmember (fun _ _ _ hw => hw) rfl

/-! ### A write to a node -/

/-- Only the state of one node changes. -/
theorem at'_write (hk : k ∈ D.ids) (hj : j ∈ D.ids) (n : ChordNode) :
    D.at' (s.setNode (D.info k).address n).node j = if j = k then n else D.at' s.node j := by
  split
  · rename_i heq
    rw [heq, at', RingState.setNode_node_self]
  · rename_i hne
    exact RingState.setNode_node_of_ne (fun heq => hne (D.address_inj j hj k hk heq)) n s

/-- The successors after a write, at the nodes of the directory. -/
theorem succ_write (hk : k ∈ D.ids) (hj : j ∈ D.ids) (n : ChordNode) :
    D.succ (s.setNode (D.info k).address n).node j
      = Function.update (D.succ s.node) k n.successor.id j := by
  rw [succ, at'_write hk hj]
  by_cases hjk : j = k
  · rw [if_pos hjk, hjk, Function.update_self]
  · rw [if_neg hjk, Function.update_of_ne hjk]
    rfl

/-- A node is written. Its successor is a node of the ring again, and the walks to the founder,
from the founder to itself and from its predecessor are walks along the new successors. -/
theorem RingInvariant.setNode (h : D.RingInvariant s f) (hk : k ∈ D.ids) {n : ChordNode}
    (hinfo : n.info = D.info k)
    (hsucc : D.Member s k → ∃ j, D.Member s j ∧ n.successor = D.info j)
    (hwinds : ∀ a b, D.Member s a → Winds (D.succ s.node) a b →
      Winds (Function.update (D.succ s.node) k n.successor.id) a b)
    (hleads : ∀ a, D.Member s a → Leads (D.succ s.node) f a →
      Leads (Function.update (D.succ s.node) k n.successor.id) f a)
    (hpred : ∀ p, n.predecessor = some p → (D.at' s.node k).predecessor = some p ∨
      ∃ j, D.Member s j ∧ p = D.info j ∧
        Winds (Function.update (D.succ s.node) k n.successor.id) j k)
    (htask : n.successor = (D.at' s.node k).successor ∨
      D.TaskInvariant (s.setNode (D.info k).address n) k (s.task (D.info k).address)) :
    D.RingInvariant (s.setNode (D.info k).address n) f := by
  have hsame : ∀ a, D.Member s a → D.succ (s.setNode (D.info k).address n).node a
      = Function.update (D.succ s.node) k n.successor.id a := fun a ha => succ_write hk ha.1 n
  -- The new successors of members are members, so a walk that starts at one stays among them.
  have hclosed : ∀ a, D.Member s a →
      D.Member s (Function.update (D.succ s.node) k n.successor.id a) := by
    intro a ha
    by_cases hak : a = k
    · obtain ⟨j, hj, heq⟩ := hsucc (hak ▸ ha)
      rw [hak, Function.update_self, heq, D.info_id]
      exact hj
    · rw [Function.update_of_ne hak]
      exact h.succ_member a ha
  have hwinds' : ∀ a b, D.Member s a → Winds (D.succ s.node) a b →
      Winds (D.succ (s.setNode (D.info k).address n).node) a b := fun a b ha hw =>
    (hwinds a b ha hw).congr_on hclosed hsame ha
  refine ⟨h.founder, h.participant, fun j hj => ?_, fun j hj => ?_, fun j hj p hp => ?_,
    fun j hj => (hleads j hj (h.leads j hj)).congr_on hclosed hsame hj,
    hwinds' f f h.founder h.winds, fun j hj => ?_⟩
  · rw [at'_write hk hj]
    split
    · rename_i heq
      rw [heq, hinfo]
    · exact h.info j hj
  · rw [at'_write hk hj.1]
    split
    · rename_i heq
      exact hsucc (heq ▸ hj)
    · exact h.successor j hj
  · -- A recorded predecessor is an old one, whose walk goes on, or the new one of the written node.
    have hold : (D.at' s.node j).predecessor = some p →
        D.Behind (s.setNode (D.info k).address n) j p := by
      intro hp
      obtain ⟨l, hl, hinfo, hw⟩ := h.predecessor j hj p hp
      exact ⟨l, hl, hinfo, hwinds' l j hl hw⟩
    rw [at'_write hk hj] at hp
    split at hp
    · rename_i heq
      subst heq
      rcases hpred p hp with hp | ⟨l, hl, hinfo, hw⟩
      · exact hold hp
      · exact ⟨l, hl, hinfo, hw.congr_on hclosed hsame hl⟩
    · exact hold hp
  · -- What the other nodes rely on is their own successor and the walks.
    have hmono : (D.at' (s.setNode (D.info k).address n).node j).successor
        = (D.at' s.node j).successor → D.TaskInvariant (s.setNode (D.info k).address n) j
          (s.task (D.info j).address) :=
      (h.task j hj).mono (r := s.setNode (D.info k).address n) (fun _ hm => hm) hwinds'
    by_cases hjk : j = k
    · subst hjk
      rcases htask with heq | htask
      · refine hmono ?_
        rw [at'_write hk hk, if_pos rfl, heq]
      · exact htask
    · refine hmono ?_
      rw [at'_write hk hj, if_neg hjk]

/-- A node is written and keeps its successor. -/
theorem RingInvariant.keepSuccessor (h : D.RingInvariant s f) (hk : k ∈ D.ids) {n : ChordNode}
    (hinfo : n.info = D.info k) (hsucc : n.successor = (D.at' s.node k).successor)
    (hpred : ∀ p, n.predecessor = some p → (D.at' s.node k).predecessor = some p ∨ D.Behind s k p) :
    D.RingInvariant (s.setNode (D.info k).address n) f := by
  -- No successor changes, so every walk is the same.
  have hsame : Function.update (D.succ s.node) k n.successor.id = D.succ s.node := by
    rw [hsucc]
    exact Function.update_eq_self k _
  refine h.setNode hk hinfo (fun hm => ?_) (fun a b _ hw => ?_) (fun a _ hl => ?_)
    (fun p hp => ?_) (Or.inl hsucc)
  · obtain ⟨j, hj, heq⟩ := h.successor k hm
    exact ⟨j, hj, hsucc.trans heq⟩
  · rw [hsame]
    exact hw
  · rw [hsame]
    exact hl
  · rw [hsame]
    exact hpred p hp

/-! ### The steps that write a pointer -/

/-- The write of the successor in `join`. Nobody's walk meets the node yet. -/
theorem RingInvariant.joinWrite (h : D.RingInvariant s f) (hi : i ∈ D.ids) {x : NodeInfo}
    (htask : s.task (D.info i).address = .named x) :
    D.RingInvariant ((s.setNode (D.info i).address
      { s.node (D.info i).address with successor := x }).setTask (D.info i).address .idle) f := by
  have hnot : ¬ D.Member s i := by
    intro hm
    have hjoined := hm.2
    rw [htask] at hjoined
    exact hjoined
  obtain ⟨j, hj, hx⟩ : ∃ j, D.Member s j ∧ x = D.info j := by
    have := h.task i hi
    rw [htask] at this
    exact this
  -- The node is no member yet, so no walk of a member meets the write.
  have hsame : ∀ a, D.Member s a →
      Function.update (D.succ s.node) i x.id a = D.succ s.node a := by
    intro a ha
    refine Function.update_of_ne ?_ _ _
    rintro rfl
    exact hnot ha
  have hwrite : D.RingInvariant (s.setNode (D.info i).address
      { s.node (D.info i).address with successor := x }) f := by
    refine h.setNode hi (h.info i hi) (fun hm => absurd hm hnot)
      (fun a b ha hw => hw.congr_on h.succ_member hsame ha)
      (fun a ha hl => hl.congr_on h.succ_member hsame ha) (fun p hp => Or.inl hp) (Or.inr ?_)
    rw [htask]
    exact ⟨j, hj, hx⟩
  refine hwrite.setTask hi (fun _ => trivial) (fun _ => Or.inr ⟨j, hj, ?_⟩) trivial
  rw [at'_write hi hi, if_pos rfl]
  exact hx

/-- A write of the state that a node has already. -/
theorem setNode_node (a : String) : s.setNode a (s.node a) = s := by
  rw [RingState.setNode, Function.update_eq_self]

/-- The write of the successor in `stabilize`, with a reply that may be stale. -/
theorem RingInvariant.adoptSuccessor (h : D.RingInvariant s f) (hi : D.Member s i)
    (hself : D.succ s.node i ≠ i) {x : NodeInfo} (hx : D.Behind s (D.succ s.node i) x)
    (htask : s.task (D.info i).address = .written) :
    D.RingInvariant (s.setNode (D.info i).address
      ((s.node (D.info i).address).adoptSuccessor (D.at' s.node i).successor x)) f := by
  have hinfo : (s.node (D.info i).address).info.id = i := by
    rw [show (s.node (D.info i).address).info = D.info i from h.info i hi.1, D.info_id]
  unfold ChordNode.adoptSuccessor
  split
  · rename_i hbetween
    obtain ⟨j, hj, rfl, hw⟩ := hx
    rw [hinfo, D.info_id, isBetween_iff] at hbetween
    -- The reported node lies between, so it is another node than this one.
    have hji : j ≠ i := fun heq => not_inArc_start (heq ▸ hbetween)
    rcases Nat.lt_or_eq_of_le ((inArc_iff_arc_le (Ne.symm hself)).mp hbetween) with hlt | heq
    · have hsame : ∀ a, a ≠ i → Function.update (D.succ s.node) i j a = D.succ s.node a :=
        fun a ha => Function.update_of_ne ha _ _
      have hnew : Function.update (D.succ s.node) i j i = j := Function.update_self _ _ _
      refine h.setNode hi.1 (h.info i hi.1) (fun _ => ⟨j, hj, rfl⟩) ?_ ?_ (fun p hp => Or.inl hp)
        (Or.inr ?_)
      · -- The walk takes the detour over the reported node, which winds to the old successor.
        simp only [D.info_id]
        exact fun a b _ hab => Winds.shortcut hsame hnew hlt hw hab
      · simp only [D.info_id]
        exact fun a _ hab => Leads.shortcut hsame hnew hlt hw hab
      · rw [htask]
        show D.succ _ i ≠ i
        rw [succ_write hi.1 hi.1, Function.update_self, D.info_id]
        exact hji
    · -- The reported node is the successor.
      refine h.keepSuccessor hi.1 (h.info i hi.1) ?_ fun p hp => Or.inl hp
      rw [h.successor_eq hi, ← arc_inj_right heq]
  · rw [setNode_node]
    exact h

/-- A notification is refused, or its sender becomes the predecessor. A node that was alone takes
it as its successor too. -/
theorem handleNotify_cases (n : ChordNode) (nPrime : NodeInfo) :
    RingState.handleNotify n nPrime = n ∨
    RingState.handleNotify n nPrime = { n with
      predecessor := some nPrime
      successor := if n.successor.id = n.info.id then nPrime else n.successor } := by
  unfold RingState.handleNotify
  split
  · exact Or.inl rfl
  · cases hupdate : n.notifyUpdate nPrime with
    | none => exact Or.inl rfl
    | some updated =>
      refine Or.inr ?_
      unfold ChordNode.notifyUpdate at hupdate
      simp only [Option.ite_none_right_eq_some, Option.some.injEq] at hupdate
      exact hupdate.2.symm

/-- The successor handles a notification. The notifier may be far away, when the successor has no
predecessor. -/
theorem RingInvariant.handleNotify (h : D.RingInvariant s f) (hi : D.Member s i)
    (hself : D.succ s.node i ≠ i) :
    D.RingInvariant (s.setNode (D.info (D.succ s.node i)).address
      (RingState.handleNotify (s.node (D.info (D.succ s.node i)).address) (D.info i))) f := by
  generalize ht : D.succ s.node i = t at hself ⊢
  have htm : D.Member s t := ht ▸ h.succ_member i hi
  have hinfo : (s.node (D.info t).address).info = D.info t := h.info t htm.1
  rcases handleNotify_cases (s.node (D.info t).address) (D.info i) with heq | heq
  · rw [heq, setNode_node]
    exact h
  rw [heq, hinfo, D.info_id]
  by_cases hloop : D.succ s.node t = t
  · -- The successor was alone, so it is the founder.
    have htf : t = f := by
      obtain ⟨k, hk⟩ := (h.leads t htm).iterate
      exact (Function.iterate_fixed hloop k).symm.trans hk
    have hsame : ∀ a, a ≠ t → Function.update (D.succ s.node) t i a = D.succ s.node a :=
      fun a ha => Function.update_of_ne ha _ _
    have hnew : Function.update (D.succ s.node) t i t = i := Function.update_self _ _ _
    rw [if_pos (show (s.node (D.info t).address).successor.id = t from hloop)]
    refine h.setNode htm.1 rfl (fun _ => ⟨i, hi, rfl⟩) ?_ ?_ (fun p hp => Or.inr ?_) (Or.inr ?_)
    · -- The self-loop opens: the founder goes to the notifier, which goes back to it.
      simp only [D.info_id]
      exact fun a b _ hw => Winds.openLoop hloop hsame hnew ht (Ne.symm hself) hw
    · subst htf
      simp only [D.info_id]
      exact fun a _ hl => hl.congr_off hsame
    · simp only [D.info_id]
      exact ⟨i, hi, (Option.some.inj hp).symm, .last ((hsame i (Ne.symm hself)).trans ht)⟩
    · -- A node that is its own successor is not in the middle of a stabilization.
      have htask := h.task t htm.1
      have hjoined := htm.2
      cases htask' : s.task (D.info t).address <;> rw [htask'] at htask hjoined
      case named => exact hjoined.elim
      case asking => exact absurd hloop htask.2
      case answered => exact absurd hloop htask.2.1
      case written => exact absurd hloop htask
      case notifying => exact absurd hloop htask.2
      all_goals trivial
  · -- Otherwise only the predecessor is written, and the notifier is one step behind.
    rw [if_neg (show (s.node (D.info t).address).successor.id ≠ t from hloop)]
    refine h.keepSuccessor htm.1 rfl rfl fun p hp => Or.inr ?_
    exact ⟨i, hi, (Option.some.inj hp).symm, .last ht⟩

/-! ### Every step -/

/-- The node that takes a step, and what holds of it before. -/
theorem RingInvariant.actor (h : D.RingInvariant s f) {a : String} (ha : s.task a = t)
    (hout : t ≠ .outside) : ∃ i ∈ D.ids, a = (D.info i).address ∧ D.TaskInvariant s i t := by
  subst ha
  obtain ⟨i, hi, rfl⟩ := h.participant a hout
  exact ⟨i, hi, rfl, h.task i hi⟩

/-- A node goes on in its own code, and joins or leaves nothing by it. -/
theorem RingInvariant.advance (h : D.RingInvariant s f) (hi : i ∈ D.ids) {u : Task}
    (ha : s.task (D.info i).address = t) (hjoined : t.Joined ↔ u.Joined)
    (hok : D.TaskInvariant s i u) : D.RingInvariant (s.setTask (D.info i).address u) f := by
  subst ha
  exact h.setTask hi (fun hm => hjoined.mp hm.2) (fun hj => Or.inl ⟨hi, hjoined.mpr hj⟩) hok

/-- Every step keeps the invariant. -/
theorem RingInvariant.step (h : D.RingInvariant s f) (hstep : s.Step r) :
    D.RingInvariant r f := by
  cases hstep with
  | askBootstrap ha =>
    obtain ⟨i, hi, rfl, -⟩ := h.actor ha (by simp)
    exact h.advance hi ha Iff.rfl trivial
  | @nameSuccessor _ b ha hb =>
    obtain ⟨i, hi, rfl, -⟩ := h.actor ha (by simp)
    -- The named node has answered, so it is a member.
    obtain ⟨j, hj, rfl⟩ := h.participant b fun hout => by
      rw [hout] at hb
      exact hb
    exact h.advance hi ha Iff.rfl ⟨j, ⟨hj, hb⟩, h.info j hj⟩
  | joinWrite ha =>
    obtain ⟨i, hi, rfl, -⟩ := h.actor ha (by simp)
    exact h.joinWrite hi ha
  | readSuccessor ha =>
    obtain ⟨i, hi, rfl, -⟩ := h.actor ha (by simp)
    split
    · exact h.advance hi ha Iff.rfl trivial
    · rename_i hne
      -- The node has another successor than itself, or it would be alone.
      refine h.advance hi ha Iff.rfl ⟨rfl, fun heq => hne ?_⟩
      rw [show (s.node (D.info i).address).info = D.info i from h.info i hi, D.info_id]
      exact heq.symm
  | clearPredecessor ha =>
    obtain ⟨i, hi, rfl, -⟩ := h.actor ha (by simp)
    have h₁ := h.advance hi ha (u := .idle) Iff.rfl trivial
    refine h₁.keepSuccessor hi (h.info i hi) rfl fun p hp => ?_
    cases hp
  | handleGetPredecessor ha =>
    obtain ⟨i, hi, rfl, rfl, hself⟩ := h.actor ha (by simp)
    have hm : D.Member s i := ⟨hi, by rw [ha]; trivial⟩
    refine h.advance hi ha Iff.rfl ⟨rfl, hself, fun p hp => ?_⟩
    -- The reply carries the predecessor that the successor has now. It may be stale when it is
    -- used.
    rw [h.successor_eq hm] at hp
    exact h.predecessor _ (h.succ_member i hm).1 p hp
  | @writeSuccessor _ _ x ha =>
    obtain ⟨i, hi, rfl, rfl, hself, hx⟩ := h.actor ha (by simp)
    have hm : D.Member s i := ⟨hi, by rw [ha]; trivial⟩
    have h₁ := h.advance hi ha (u := .written) Iff.rfl hself
    have hkeep : ∀ j, D.Member s j → D.Member (s.setTask (D.info i).address .written) j :=
      fun j => member_setTask hi fun _ => trivial
    cases x with
    | none =>
      -- Nothing is adopted.
      show D.RingInvariant (RingState.setNode _ (s.node _) (s.setTask _ .written)) f
      exact (setNode_node (s := s.setTask _ .written) _).symm ▸ h₁
    | some x =>
      obtain ⟨j, hj, rfl, hw⟩ := hx x rfl
      exact h₁.adoptSuccessor (hkeep i hm) hself ⟨j, hkeep j hj, rfl, hw⟩
        (by rw [task_setTask hi hi, if_pos rfl])
  | sendNotify ha =>
    obtain ⟨i, hi, rfl, hself⟩ := h.actor ha (by simp)
    exact h.advance hi ha Iff.rfl ⟨rfl, hself⟩
  | receiveNotify ha =>
    obtain ⟨i, hi, rfl, rfl, hself⟩ := h.actor ha (by simp)
    have hm : D.Member s i := ⟨hi, by rw [ha]; trivial⟩
    have h₁ := h.advance hi ha (u := .notified) Iff.rfl trivial
    have h₂ := h₁.handleNotify (member_setTask hi (fun _ => trivial) hm) hself
    rw [h.successor_eq hm, show (s.node (D.info i).address).info = D.info i from h.info i hi]
    exact h₂
  | finish successorList ha =>
    obtain ⟨i, hi, rfl, -⟩ := h.actor ha (by simp)
    have h₁ := h.advance hi ha (u := .idle) Iff.rfl trivial
    exact h₁.keepSuccessor hi (h.info i hi) rfl fun p hp => Or.inl hp

/-! ### Every run -/

/-- A network that the founder has just started. The other nodes have not begun to join. -/
structure Founded (D : Directory) (f : NodeId) (s : RingState) : Prop where
  mem : f ∈ D.ids
  participant : ∀ a, s.task a ≠ .outside → ∃ i ∈ D.ids, a = (D.info i).address
  info : ∀ i ∈ D.ids, (D.at' s.node i).info = D.info i
  founder : ∃ n : ChordNode, n.info = D.info f ∧ D.at' s.node f = n.startNewNetwork
  idle : s.task (D.info f).address = .idle
  predecessor : ∀ i ∈ D.ids, (D.at' s.node i).predecessor = none
  fresh : ∀ i ∈ D.ids, i ≠ f → s.task (D.info i).address = .fresh

/-- The founder alone is a ring. -/
theorem Founded.ringInvariant (h : D.Founded f s) : D.RingInvariant s f := by
  have hfounder : D.Member s f := ⟨h.mem, by rw [h.idle]; trivial⟩
  -- The other nodes are fresh, so the founder is the only member.
  have honly : ∀ i, D.Member s i → i = f := by
    intro i hi
    by_contra hne
    have hjoined := hi.2
    rw [h.fresh i hi.1 hne] at hjoined
    exact hjoined
  have hsucc : (D.at' s.node f).successor = D.info f := by
    obtain ⟨n, hinfo, hnode⟩ := h.founder
    rw [hnode]
    exact hinfo
  refine ⟨hfounder, h.participant, h.info, fun i hi => ⟨f, hfounder, ?_⟩, fun i hi p hp => ?_,
    fun i hi => ?_, .last ?_, fun i hi => ?_⟩
  · rw [honly i hi, hsucc]
  · rw [h.predecessor i hi] at hp
    cases hp
  · rw [honly i hi]
    exact .here
  · rw [succ, hsucc, D.info_id]
  · by_cases hif : i = f
    · rw [hif, h.idle]
      trivial
    · rw [h.fresh i hi hif]
      trivial

/-- The invariant along a run. -/
theorem RingInvariant.reachable (h : D.RingInvariant s f) (hrun : s.Reachable r) :
    D.RingInvariant r f := by
  induction hrun with
  | refl => exact h
  | step _ hstep ih => exact ih.step hstep

end Directory

/-- The successors of a founded network form one ring, in every state that joins, stabilizations
and notifications reach, whatever the order of their steps. The successor of every joined node is a
joined node, and following the successors leads to the founder. The founder lies on a cycle, the
only one, that visits its nodes in clockwise order and goes round the ids once. -/
theorem successors_form_ring (D : Directory) (f : NodeId) (start s : RingState)
    (hstart : D.Founded f start) (hrun : start.Reachable s) :
    (∀ i, D.Member s i →
      (∃ j, D.Member s j ∧ (D.at' s.node i).successor = D.info j) ∧
      ∃ k, (D.succ s.node)^[k] i = f) ∧
    ∃ cycle : List NodeId,
      (∀ i ∈ f :: cycle, D.Member s i) ∧
      (f :: cycle).IsChain (fun i j => j = D.succ s.node i) ∧
      D.succ s.node ((f :: cycle).getLast (List.cons_ne_nil f cycle)) = f ∧
      (∀ i, D.Member s i → ∀ k, (D.succ s.node)^[k + 1] i = i → i ∈ f :: cycle) ∧
      (f :: cycle).Pairwise (fun i j => cw f i < cw f j) ∧
      turn f (f :: cycle) = 2 ^ 160 := by
  have h := hstart.ringInvariant.reachable hrun
  obtain ⟨cycle, hchain, hlast, hclockwise, hturn⟩ := h.winds.cycle
  refine ⟨fun i hi => ⟨h.successor i hi, (h.leads i hi).iterate⟩, cycle, ?_, hchain, hlast,
    fun i hi k hk => ?_, hclockwise, hturn⟩
  · -- Every node of the cycle is the successor of the one before it, and the founder is a member.
    refine hchain.induction _ _ ?_ fun _ => h.founder
    rintro i - rfl hi
    exact h.succ_member i hi
  · -- A node that comes back to itself lies on the way back from the founder to the founder.
    obtain ⟨m, rfl⟩ := (h.leads i hi).mem_cycle hk
    exact iterate_mem_of_isChain hchain hlast m

/-- The network of the founder 10, before the node 20 begins to join. -/
def pairStart : RingState where
  node address := linkedNode id (fun _ => none) (idOf address)
  task address :=
    if address = addressOf (biguintToNodeId 10) then .idle
    else if address = addressOf (biguintToNodeId 20) then .fresh
    else .outside

/-- The two nodes have two addresses. -/
theorem pair_address_ne : addressOf (biguintToNodeId 10) ≠ addressOf (biguintToNodeId 20) := by
  intro heq
  have hid := congrArg idOf heq
  rw [idOf_addressOf, idOf_addressOf] at hid
  exact absurd hid (by decide)

/-- The node 10 has founded the network. -/
theorem pairStart_founded :
    (Directory.ofIds pairIds).Founded (biguintToNodeId 10) pairStart := by
  have hnode : ∀ i, (Directory.ofIds pairIds).at' pairStart.node i
      = linkedNode id (fun _ => none) i := fun i =>
    congrArg (linkedNode id fun _ => none) (idOf_addressOf i)
  refine ⟨by decide, fun a ha => ?_, fun i _ => ?_, ⟨linkedNode id (fun _ => none) _, rfl, ?_⟩, ?_,
    fun i _ => ?_, fun i hi hfresh => ?_⟩
  · by_cases h10 : a = addressOf (biguintToNodeId 10)
    · exact ⟨biguintToNodeId 10, by decide, h10⟩
    · by_cases h20 : a = addressOf (biguintToNodeId 20)
      · exact ⟨biguintToNodeId 20, by decide, h20⟩
      · exact absurd ((if_neg h10).trans (if_neg h20)) ha
  · rw [hnode]
    rfl
  · rw [hnode]
    rfl
  · simp [pairStart, Directory.ofIds, infoOf]
  · rw [hnode]
    rfl
  · obtain rfl : i = biguintToNodeId 20 := by
      simp only [Directory.ofIds, pairIds, Finset.mem_insert, Finset.mem_singleton] at hi
      exact hi.resolve_left hfresh
    simp [pairStart, Directory.ofIds, infoOf, Ne.symm pair_address_ne]

/-- `pairStart` when the node 20 has asked the founder 10 for its successor, has been given the
founder, and has written it. -/
def pairJoined : RingState :=
  let a := addressOf (biguintToNodeId 20)
  let s := (pairStart.setTask a .lookingUp).setTask a (.named (infoOf (biguintToNodeId 10)))
  (s.setNode a { s.node a with successor := infoOf (biguintToNodeId 10) }).setTask a .idle

/-- The node 20 has joined through the node 10. -/
theorem pairJoined_reachable : pairStart.Reachable pairJoined := by
  have hfresh : pairStart.task (addressOf (biguintToNodeId 20)) = .fresh :=
    pairStart_founded.fresh _ (by decide) (by decide)
  have hidle : pairStart.task (addressOf (biguintToNodeId 10)) = .idle := pairStart_founded.idle
  have hinfo : (pairStart.node (addressOf (biguintToNodeId 10))).info
      = infoOf (biguintToNodeId 10) := pairStart_founded.info _ (by decide)
  have hasked := RingState.Reachable.refl.step (.askBootstrap hfresh)
  have hjoined : ((pairStart.setTask (addressOf (biguintToNodeId 20)) .lookingUp).task
      (addressOf (biguintToNodeId 10))).Joined := by
    rw [RingState.setTask_task_of_ne pair_address_ne, hidle]
    trivial
  have hnamed := hasked.step (.nameSuccessor (RingState.setTask_task_self _ _ _) hjoined)
  rw [RingState.setTask_node, hinfo] at hnamed
  exact hnamed.step (.joinWrite (RingState.setTask_task_self _ _ _))

/-- `successors_form_ring` for the node 20 that has just joined. -/
theorem successors_form_ring_pairJoined :
    ∃ k, ((Directory.ofIds pairIds).succ pairJoined.node)^[k] (biguintToNodeId 20)
      = biguintToNodeId 10 := by
  have hidle : pairJoined.task (addressOf (biguintToNodeId 20)) = .idle :=
    RingState.setTask_task_self _ _ _
  have hring := successors_form_ring _ _ _ _ pairStart_founded pairJoined_reachable
  refine (hring.1 (biguintToNodeId 20) ⟨by decide, ?_⟩).2
  show (pairJoined.task (addressOf (biguintToNodeId 20))).Joined
  rw [hidle]
  trivial

end TaceChat
