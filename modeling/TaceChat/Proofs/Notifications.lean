import TaceChat.Library.Arcs
import TaceChat.Library.Lists
import TaceChat.Proofs.IdNetwork
import TaceChat.Proofs.Rounds
import TaceChat.Model.Concurrent

/-!
# Sequences of notifications

A notification is accepted when the notifier is closer to the node than its predecessor is. So what
is left of any number of notifications, in any order and even at the same time, is the closest of
the first predecessor and the notifiers (`notify_closest`).

`Notifying` is the invariant of a pool whose tasks are notifications. It keeps the notifiers beside
the programs that they have started, and says of each how far it has come.
-/

set_option autoImplicit false

namespace TaceChat

open IdCircle Prog

/-! ### The closest candidate -/

/-- The predecessor of a node and the notifiers, without the node itself. -/
def notifyCandidates (n : ChordNode) (notifiers : List NodeInfo) : List NodeInfo :=
  n.predecessor.toList ++ notifiers.filter fun x => x.id ≠ n.info.id

/-- The candidate with the smallest clockwise distance to the id, or none if there is no
candidate. -/
def IsClosest (self : NodeId) (candidates : List NodeInfo) (found : Option NodeInfo) : Prop :=
  (candidates = [] ∧ found = none) ∨
    ∃ p ∈ candidates, found = some p ∧ ∀ c ∈ candidates, cw p.id self ≤ cw c.id self

/-- The id of the closest candidate does not depend on the order of the candidates, or on how often
one occurs. -/
theorem IsClosest.unique {self : NodeId} {candidates candidates' : List NodeInfo}
    {found found' : Option NodeInfo} (h : IsClosest self candidates found)
    (h' : IsClosest self candidates' found') (hsame : ∀ c, c ∈ candidates ↔ c ∈ candidates') :
    found.map NodeInfo.id = found'.map NodeInfo.id := by
  rcases h with ⟨hnil, rfl⟩ | ⟨p, hp, rfl, hmin⟩
  · rcases h' with ⟨-, rfl⟩ | ⟨q, hq, -, -⟩
    · rfl
    · rw [← hsame, hnil] at hq
      cases hq
  · rcases h' with ⟨hnil, -⟩ | ⟨q, hq, rfl, hmin'⟩
    · rw [hsame, hnil] at hp
      cases hp
    · have hle := hmin q ((hsame q).mpr hq)
      have hge := hmin' p ((hsame p).mp hp)
      exact congrArg some (cw_inj_left (Nat.le_antisymm hle hge))

/-- The predecessor is at least as close as `x`. -/
def Covered (n : ChordNode) (x : NodeInfo) : Prop :=
  ∃ p, n.predecessor = some p ∧ cw p.id n.info.id ≤ cw x.id n.info.id

/-- What the section of a notification does: the notifier is covered afterwards, and so is whatever
was covered before. The predecessor is the one before or the notifier. -/
theorem notifyUpdate_covered (n : ChordNode) (x : NodeInfo) :
    ((n.notifyUpdate x).getD n).info = n.info ∧
      Covered ((n.notifyUpdate x).getD n) x ∧
      (∀ y, Covered n y → Covered ((n.notifyUpdate x).getD n) y) ∧
      (((n.notifyUpdate x).getD n).predecessor = n.predecessor ∨
        ((n.notifyUpdate x).getD n).predecessor = some x) := by
  by_cases haccept : ∀ p, n.predecessor = some p → isBetween x.id p.id n.info.id = true
  · rw [ChordNode.notifyUpdate_accept haccept]
    refine ⟨rfl, ⟨x, rfl, Nat.le_refl _⟩, ?_, Or.inr rfl⟩
    rintro y ⟨p, hp, hle⟩
    -- The notifier is closer than the predecessor before it.
    have hlt := inArc_iff_cw_lt.mp ((isBetween_iff _ _ _).mp (haccept p hp))
    exact ⟨x, rfl, Nat.le_trans (Nat.le_of_lt hlt) hle⟩
  · simp only [not_forall] at haccept
    obtain ⟨p, hp, hnot⟩ := haccept
    rw [ChordNode.notifyUpdate_refuse hp hnot]
    rw [isBetween_iff, inArc_iff_cw_lt] at hnot
    exact ⟨rfl, ⟨p, hp, Nat.le_of_not_lt hnot⟩, fun y hy => hy, Or.inl rfl⟩

/-! ### One notification -/

/-- How far the notification by `x` has come at a node. -/
inductive NotifyStage (n : ChordNode) (x : NodeInfo) (p : NodeProg Unit) : Prop
  /-- It has not begun. -/
  | waiting (h : p = Concurrent.notify x)
  /-- The notifier is another node, and the section that writes comes next. -/
  | checked (hne : x.id ≠ n.info.id) (next : ChordNode → NodeProg Unit)
      (h : p = .sect (fun n => (n.notifyUpdate x).getD n) next) (hnext : ∀ s, (next s).Reads)
  /-- The rest of it only reads. -/
  | handled (h : p.Reads) (hx : x.id = n.info.id ∨ Covered n x)

/-- The state of the node is later: it covers what it did. -/
structure CoversMore (n n' : ChordNode) : Prop where
  info : n'.info = n.info
  covered : ∀ y, Covered n y → Covered n' y

/-- A state covers what it did. -/
theorem CoversMore.refl (n : ChordNode) : CoversMore n n := ⟨rfl, fun _ hy => hy⟩

/-- The other notifications leave a notification where it is. -/
theorem NotifyStage.later {n n' : ChordNode} {x : NodeInfo} {p : NodeProg Unit}
    (h : NotifyStage n x p) (hlater : CoversMore n n') : NotifyStage n' x p := by
  cases h with
  | waiting h => exact .waiting h
  | checked hne next h hnext => exact .checked (by rwa [hlater.info]) next h hnext
  | handled h hx =>
    refine .handled h ?_
    rw [hlater.info]
    exact hx.imp_right (hlater.covered x)

/-- The rest of a notification by another node. -/
theorem notify_checked {n : ChordNode} {x : NodeInfo} (hne : x.id ≠ n.info.id)
    (reply : Option DhtMessage) : NotifyStage n x ((Concurrent.notify x).step n reply).2 := by
  have hstep : ((Concurrent.notify x).step n reply).2 = (if x.id = n.info.id then return () else do
      let before ← atomic fun n => (n.notifyUpdate x).getD n
      if (before.notifyUpdate x).isSome then do
        let after ← read
        Concurrent.forEachValue (after.getDataRange x.id after.info.id) fun key value =>
          discard <| Concurrent.callNode x.address (.store key value)
      else
        return ()) := rfl
  rw [hstep, if_neg hne]
  refine .checked hne _ rfl ?_
  intro before
  show Reads (if (before.notifyUpdate x).isSome then _ else _)
  split
  · exact reads_read_bind fun after => Reads.forM fun entry _ => Reads.forM fun value _ =>
      reads_ask_bind fun _ => trivial
  · trivial

/-- One step of a notification. It writes the notifier or leaves the predecessor. -/
theorem NotifyStage.step {n : ChordNode} {x : NodeInfo} {p : NodeProg Unit} (h : NotifyStage n x p)
    (reply : Option DhtMessage) :
    NotifyStage (p.step n reply).1 x (p.step n reply).2 ∧ CoversMore n (p.step n reply).1 ∧
      ((p.step n reply).1.predecessor = n.predecessor ∨
        (p.step n reply).1.predecessor = some x ∧ x.id ≠ n.info.id) := by
  cases h with
  | waiting h =>
    subst h
    refine ⟨?_, .refl n, Or.inl rfl⟩
    by_cases heq : x.id = n.info.id
    · have hstep : ((Concurrent.notify x).step n reply).2 = .done () := if_pos heq
      rw [hstep]
      exact .handled trivial (Or.inl heq)
    · exact notify_checked heq reply
  | checked hne next h hnext =>
    subst h
    obtain ⟨hinfo, hcovered, hkeeps, hpred⟩ := notifyUpdate_covered n x
    exact ⟨.handled (hnext n) (Or.inr hcovered), ⟨hinfo, hkeeps⟩,
      hpred.imp_right fun hx => ⟨hx, hne⟩⟩
  | handled h hx =>
    have hrest : (p.step n reply).1 = n ∧ (p.step n reply).2.Reads := by
      cases p with
      | done a => exact ⟨rfl, trivial⟩
      | sect update next =>
        obtain ⟨rfl, hnext⟩ := h
        exact ⟨rfl, hnext n⟩
      | request message next => exact ⟨rfl, h reply⟩
    rw [hrest.1]
    exact ⟨.handled hrest.2 hx, .refl n, Or.inl rfl⟩

/-! ### Any number of notifications -/

/-- The invariant of a pool of notifications at the node `n`. -/
structure Notifying (n : ChordNode) (notifiers : List NodeInfo)
    (pool : Pool ChordNode (String × DhtMessage) (Option DhtMessage)) : Prop where
  later : CoversMore n pool.state
  /-- What covers the first predecessor. -/
  start : ∀ p, n.predecessor = some p → Covered pool.state p
  mem : ∀ p, pool.state.predecessor = some p → p ∈ notifyCandidates n notifiers
  progs : List.Forall₂ (NotifyStage pool.state) notifiers pool.progs

/-- No notification has begun. -/
theorem Notifying.of_start (n : ChordNode) : Notifying n [] ⟨n, []⟩ where
  later := .refl n
  start _ hp := ⟨_, hp, Nat.le_refl _⟩
  mem _ hp := List.mem_append_left _ (Option.mem_toList.mpr hp)
  progs := .nil

/-- One event, whichever notification takes a step. -/
theorem Notifying.step {n : ChordNode} {notifiers : List NodeInfo}
    {pool : Pool ChordNode (String × DhtMessage) (Option DhtMessage)}
    (h : Notifying n notifiers pool) (event : PoolEvent NodeInfo (Option DhtMessage)) :
    Notifying n (notifiers ++ Pool.started [event]) (pool.step Concurrent.notify event) := by
  cases event with
  | start x =>
    refine ⟨h.later, h.start, ?_, ?_⟩
    · intro p hp
      have hmem := h.mem p hp
      simp only [notifyCandidates, List.filter_append, List.mem_append] at hmem ⊢
      exact hmem.imp_right Or.inl
    · exact List.rel_append h.progs (.cons (.waiting rfl) .nil)
  | advance i reply =>
    have hnone : notifiers ++ Pool.started [PoolEvent.advance i reply] = notifiers :=
      List.append_nil notifiers
    rw [hnone]
    cases hi : pool.progs[i]? with
    | none =>
      simp only [Pool.step, hi]
      exact h
    | some p =>
      simp only [Pool.step, hi]
      obtain ⟨x, hx, hstage⟩ : ∃ x ∈ notifiers, NotifyStage pool.state x p :=
        h.progs.exists_left (List.mem_of_getElem? hi)
      obtain ⟨-, hlater, hpred⟩ := hstage.step reply
      refine ⟨⟨hlater.info.trans h.later.info, ?_⟩, ?_, ?_, ?_⟩
      · exact fun y hy => hlater.covered y (h.later.covered y hy)
      · exact fun q hq => hlater.covered q (h.start q hq)
      · intro q hq
        rcases hpred with hsame | ⟨hset, hne⟩
        · exact h.mem q (hsame.symm.trans hq)
        · cases hset.symm.trans hq
          refine List.mem_append_right _ (List.mem_filter.mpr ⟨hx, ?_⟩)
          rw [← h.later.info]
          exact decide_eq_true hne
      · exact h.progs.set (fun y q hq => hq.later hlater) (fun y hy => (hy.step reply).1) hi

/-- All the events, by induction. -/
theorem Notifying.run (n : ChordNode) (events : List (PoolEvent NodeInfo (Option DhtMessage))) :
    Notifying n (Pool.started events) (Pool.run Concurrent.notify ⟨n, []⟩ events) := by
  induction events using List.reverseRecOn with
  | nil => exact .of_start n
  | append_singleton events event ih =>
    have hlast := ih.step event
    have hstarted : Pool.started (events ++ [event]) =
        Pool.started events ++ Pool.started [event] := List.flatMap_append
    rw [hstarted, Pool.run_append]
    exact hlast

/-- A notification that has ended was handled. -/
theorem NotifyStage.of_ended {n : ChordNode} {x : NodeInfo} {p : NodeProg Unit}
    (h : NotifyStage n x p) (hended : p.ended = true) : x.id = n.info.id ∨ Covered n x := by
  cases h with
  | waiting h =>
    subst h
    cases hended
  | checked hne next h hnext =>
    subst h
    cases hended
  | handled h hx => exact hx

/-- When all notifications have ended, the predecessor is the closest candidate. -/
theorem Notifying.isClosest {n : ChordNode} {notifiers : List NodeInfo}
    {pool : Pool ChordNode (String × DhtMessage) (Option DhtMessage)}
    (h : Notifying n notifiers pool) (hended : pool.Ended) :
    IsClosest n.info.id (notifyCandidates n notifiers) pool.state.predecessor := by
  have hcovered : ∀ c ∈ notifyCandidates n notifiers, Covered pool.state c := by
    intro c hc
    rcases List.mem_append.mp hc with hc | hc
    · exact h.start c (Option.mem_toList.mp hc)
    · obtain ⟨hc, hne⟩ := List.mem_filter.mp hc
      obtain ⟨p, hp, hstage⟩ := h.progs.flip.exists_left hc
      rw [← h.later.info] at hne
      exact (hstage.of_ended (hended p hp)).resolve_left (of_decide_eq_true hne)
  cases hpred : pool.state.predecessor with
  | none =>
    refine Or.inl ⟨List.eq_nil_iff_forall_not_mem.mpr ?_, rfl⟩
    intro c hc
    obtain ⟨p, hp, -⟩ := hcovered c hc
    cases hpred.symm.trans hp
  | some p =>
    refine Or.inr ⟨p, h.mem p hpred, rfl, ?_⟩
    intro c hc
    obtain ⟨q, hq, hle⟩ := hcovered c hc
    cases hpred.symm.trans hq
    rw [h.later.info] at hle
    exact hle

/-- At every node, with every predecessor or none, any number of notifications by nodes with any ids
may run, one after the other or interleaved. When they have ended, the predecessor is the one of the
first predecessor and the notifiers other than the node itself that has the smallest clockwise
distance to the node. So two such runs with the same notifiers, in any order and any number of
times, end with the same predecessor id. -/
theorem notify_closest (n : ChordNode)
    (events : List (PoolEvent NodeInfo (Option DhtMessage)))
    (hended : (Pool.run Concurrent.notify ⟨n, []⟩ events).Ended) :
    IsClosest n.info.id (notifyCandidates n (Pool.started events))
      (Pool.run Concurrent.notify ⟨n, []⟩ events).state.predecessor ∧
    ∀ events' : List (PoolEvent NodeInfo (Option DhtMessage)),
      (Pool.run Concurrent.notify ⟨n, []⟩ events').Ended →
      (∀ x, x ∈ Pool.started events' ↔ x ∈ Pool.started events) →
      (Pool.run Concurrent.notify ⟨n, []⟩ events').state.predecessor.map NodeInfo.id =
        (Pool.run Concurrent.notify ⟨n, []⟩ events).state.predecessor.map NodeInfo.id := by
  have hclosest := (Notifying.run n events).isClosest hended
  refine ⟨hclosest, ?_⟩
  intro events' hended' hsame
  refine ((Notifying.run n events').isClosest hended').unique hclosest ?_
  intro c
  simp only [notifyCandidates, List.mem_append, List.mem_filter, hsame]

/-- `notify_closest` for the node 40 and the notifiers 10, 30 and 20: at the same time, and one
after the other with a repetition. -/
theorem notify_closest_forty :
    ((Pool.run Concurrent.notify
      ⟨linkedNode id (fun _ => none) (biguintToNodeId 40), []⟩
      [.start (infoOf (biguintToNodeId 10)), .start (infoOf (biguintToNodeId 30)),
        .start (infoOf (biguintToNodeId 20)), .advance 0 none, .advance 1 none, .advance 2 none,
        .advance 2 none, .advance 1 none, .advance 0 none, .advance 2 none,
        .advance 1 none]).state.predecessor).map NodeInfo.id =
    ((Pool.run Concurrent.notify
      ⟨linkedNode id (fun _ => none) (biguintToNodeId 40), []⟩
      [.start (infoOf (biguintToNodeId 10)), .advance 0 none, .advance 0 none, .advance 0 none,
        .start (infoOf (biguintToNodeId 20)), .advance 1 none, .advance 1 none, .advance 1 none,
        .start (infoOf (biguintToNodeId 30)), .advance 2 none, .advance 2 none, .advance 2 none,
        .start (infoOf (biguintToNodeId 10)), .advance 3 none,
        .advance 3 none]).state.predecessor).map NodeInfo.id := by
  refine (notify_closest (linkedNode id (fun _ => none) (biguintToNodeId 40)) _
    (by decide +kernel)).2 _ (by decide +kernel) ?_
  intro x
  simp only [Pool.started, List.flatMap_cons, List.flatMap_nil, List.mem_append, List.mem_singleton,
    List.not_mem_nil]
  tauto

end TaceChat
