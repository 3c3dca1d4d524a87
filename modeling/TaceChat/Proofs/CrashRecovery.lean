import TaceChat.Library.Survivors
import TaceChat.Proofs.Availability
import TaceChat.Proofs.Chronicles
import TaceChat.Proofs.Copies
import TaceChat.Proofs.WayBack

/-!
# A ring that loses nodes

Nodes of a correct ring stop, and the others run the tasks of their background loops. In the first
phase every survivor finds its next survivor in its successor list and clears a dead predecessor
(`Detached`). In the second phase the survivors notify each other (`Noticing`). In the third phase
the ring of the survivors is correct, and they write their lists. `crash_heals` runs the three
phases.

A survivor must not stabilize twice in the first phase: its next survivor can still have the dead
predecessor then, and would hand it out.
-/

set_option autoImplicit false

namespace TaceChat

open IdCircle Network

namespace Network

variable {φ : Type} {medium : Medium φ} {depth : ℕ} {a : String} {net net' net'' : Network Unit}

/-- The networks have the same pointers and the same successor lists. -/
structure SameRing (net net' : Network Unit) : Prop extends SamePointers net net' where
  successorList : ∀ b, (net'.node b).successorList = (net.node b).successorList

/-- A network has its own ring. -/
theorem SameRing.refl (net : Network Unit) : SameRing net net := ⟨.refl net, fun _ => rfl⟩

/-- One change after another. -/
theorem SameRing.trans (h : SameRing net net') (h' : SameRing net' net'') : SameRing net net'' :=
  ⟨h.toSamePointers.trans h'.toSamePointers,
    fun b => (h'.successorList b).trans (h.successorList b)⟩

/-- Data is no part of the ring. -/
theorem ChangesData.sameRing {P : NodeId → Prop} (h : ChangesData P net net') :
    SameRing net net' :=
  ⟨h.samePointers, fun b => (h.sameTables b).2⟩

/-- `fix_fingers` writes a finger. -/
theorem fixFingers_sameRing (k : ℕ) :
    Returns (fixFingers (env reliable (depth + 1) a) k) net fun _ net' => SameRing net net' := by
  simp only [fixFingers, returns_bind, returns_safeLock, env_node]
  refine (findSuccessor_finds (.any net) (.any _) _).mono ?_
  rintro finger net' ⟨hsame, -⟩
  rw [hsame.eq, returns_safeUpdate]
  refine ⟨.setNode rfl rfl rfl, fun b => ?_⟩
  by_cases hb : b = a
  · rw [hb, env_setNode, setNode_node_self]
    rfl
  · rw [env_setNode, setNode_node_of_ne hb]

/-- A request for replicas recovers data only. -/
theorem recoverFrom_changesData (start «end» : NodeId) (x : NodeInfo) :
    Returns (recoverFrom (env reliable (depth + 1) a) start «end» x) net fun _ net' =>
      ChangesData (fun _ => True) net net' := by
  simp only [recoverFrom, returns_bind, returns_safeLock, returns_ite, env_node, env_callNode]
  refine ⟨fun _ => returns_pure.mpr (.refl net), fun _ => ?_⟩
  have hcall : Returns (call reliable (depth + 1) x.address (.requestReplicas start «end»)) net
      fun r net' => SameNodes net net' ∧ (r = none ∨ r = some _) := call_read rfl
  refine hcall.mono ?_
  rintro r net₁ ⟨hsame, rfl | rfl⟩ <;> rw [hsame.eq]
  · exact returns_pure.mpr (.refl net)
  · rw [returns_safeUpdate]
    refine ⟨rfl, fun b => ?_⟩
    obtain ⟨d, hd⟩ := ChordNode.recover_frame
      ((net.node x.address).handleRequestReplicas start «end») (net.node a)
    by_cases hb : b = a
    · refine ⟨d, ?_, fun _ h => absurd trivial h⟩
      rw [hb, env_setNode, setNode_node_self]
      exact hd
    · refine ⟨(net.node b).data, ?_, fun _ _ => rfl⟩
      rw [env_setNode, setNode_node_of_ne hb]

/-- The check of a predecessor that does not listen clears it. -/
theorem checkPredecessor_dead {p : NodeInfo} (hpred : (net.node a).predecessor = some p)
    (hl : net.listening p.address = false) :
    Returns (checkPredecessor (env reliable (depth + 1) a)) net fun _ net' =>
      SameRing (net.setNode a { net.node a with predecessor := none }) net' := by
  simp only [checkPredecessor, returns_bind, returns_safeLock, env_node, env_callNode, hpred]
  rw [returns_call_dead hl]
  simp only [reconcileDataAfterPredecessorFailure, returns_bind, returns_safeUpdate,
    returns_safeLock, env_node, env_setNode]
  refine Returns.forM (fun x _ net₁ hsame => ?_) (.refl _)
  exact (recoverFrom_changesData _ _ x).mono fun _ _ hdata => hsame.trans hdata.sameRing

/-- The check of a predecessor that listens, or of none. -/
theorem checkPredecessor_alive
    (hl : ∀ p, (net.node a).predecessor = some p → net.listening p.address = true) :
    Returns (checkPredecessor (env reliable (depth + 1) a)) net fun _ net' => net' = net := by
  simp only [checkPredecessor, returns_bind, returns_safeLock, env_node, env_callNode]
  cases hpred : (net.node a).predecessor with
  | none => exact returns_pure.mpr rfl
  | some p => rw [returns_bind, call_read_answered rfl rfl (hl p hpred), returns_pure]

/-- A stabilization whose successor reports nothing new and refuses writes the successor list of
its node. -/
theorem stabilize_refused (hne : (net.node a).info.id ≠ (net.node a).successor.id)
    (hl : net.listening (net.node a).successor.address = true) (hanswered : net.answered a = net)
    (hnotified : net.notified a = net) :
    Returns (stabilize (env reliable (depth + 3) a)) net fun _ net' =>
      SamePointers net net' ∧
        ∀ b, b ≠ a → (net'.node b).successorList = (net.node b).successorList := by
  rw [returns_stabilize_answered hne hl, hanswered]
  simp only [notifyAndRefresh, returns_bind, returns_discard]
  refine (call_notify_changesData hl).mono ?_
  rintro - net₁ hdata
  rw [hnotified] at hdata
  refine (updateSuccessorList_returns net₁).mono ?_
  rintro - net₂ ⟨rest, -, hsame⟩
  refine ⟨hdata.samePointers.trans ((SamePointers.withList net₁ a _).trans hsame.samePointers),
    fun b hb => ?_⟩
  rw [hsame.1, withList, setNode_node_of_ne hb]
  exact (hdata.sameTables b).2

/-- A stabilization whose successor does not listen goes on with the first entry of the successor
list that the node reaches. -/
theorem stabilize_replaced {x : NodeInfo}
    (hne : (net.node a).info.id ≠ (net.node a).successor.id)
    (hl : net.listening (net.node a).successor.address = false)
    (hfind : (net.node a).successorList.find? (net.reaches a) = some x) :
    Returns (stabilize (env reliable (depth + 3) a)) net fun _ net' =>
      SamePointers (net.setNode a { net.node a with successor := x }) net' ∧
        ∀ b, b ≠ a → (net'.node b).successorList = (net.node b).successorList := by
  rw [returns_stabilize_dead hne hl]
  simp only [replaceSuccessor, findNextAvailableSuccessor, returns_bind, returns_safeLock,
    env_node]
  refine (firstReachable_reliable _).mono ?_
  rintro r net₁ ⟨rfl, rfl⟩
  rw [hfind]
  simp only [returns_bind, returns_safeUpdate, env_node, env_setNode]
  refine (updateSuccessorList_returns _).mono ?_
  rintro - net₂ ⟨rest, -, hsame⟩
  refine ⟨(SamePointers.withList _ a _).trans hsame.samePointers, fun b hb => ?_⟩
  rw [hsame.1, withList, setNode_node_of_ne hb, setNode_node_of_ne hb]

end Network

namespace Directory

variable {D : Directory} {L : Finset NodeId} {done : List (Upkeep × NodeId)}
  {net net' : Network Unit} {depth : ℕ} {i : NodeId}

/-- A write to one node, as the other nodes and the node itself see it. -/
theorem at'_after_write (net : Network Unit) (hi : i ∈ D.ids) (n : ChordNode) :
    ∀ j ∈ D.ids, D.at' (net.setNode (D.info i).address n).node j
      = if j = i then n else D.at' net.node j :=
  fun _ hj => at'_setNode hi hj n

/-! ### The first phase -/

/-- Each survivor has another survivor among the next nodes of the whole ring. -/
def LeadsBack (D : Directory) (L : Finset NodeId) : Prop :=
  ∀ i ∈ L, ∃ x ∈ D.nextList D.ids i, x.id ∈ L ∧ x.id ≠ i

/-- A survivor is not alone. -/
theorem LeadsBack.one_lt_card (h : D.LeadsBack L) (hi : i ∈ L) : 1 < L.card := by
  obtain ⟨x, -, hx, hne⟩ := h i hi
  exact Finset.one_lt_card.mpr ⟨x.id, hx, i, hi, hne⟩

/-- The survivors of a correct ring after the tasks `done`. A survivor that has stabilized has the
next survivor as its successor, and one that has checked its predecessor has no dead one. -/
structure Detached (D : Directory) (L : Finset NodeId) (done : List (Upkeep × NodeId))
    (net : Network Unit) : Prop where
  subset : L ⊆ D.ids
  info : ∀ i ∈ L, (D.at' net.node i).info = D.info i
  listening : ∀ i ∈ D.ids, net.listening (D.info i).address = true ↔ i ∈ L
  waiting : ∀ i ∈ L, (.stabilize, i) ∉ done →
    (D.at' net.node i).successor = D.info (next D.ids i) ∧ D.listAt net i = D.nextList D.ids i
  moved : ∀ i ∈ L, (.stabilize, i) ∈ done →
    (D.at' net.node i).successor = D.info (next L i)
  predecessor : ∀ i ∈ L, (D.at' net.node i).predecessor = some (D.info (prev D.ids i)) ∨
    prev D.ids i ∉ L ∧ (D.at' net.node i).predecessor = none
  cleared : ∀ i ∈ L, (.checkPredecessor, i) ∈ done → prev D.ids i ∉ L →
    (D.at' net.node i).predecessor = none

/-- The others have crashed. -/
theorem Detached.not_listening (h : D.Detached L done net) (hi : i ∈ D.ids) (hiL : i ∉ L) :
    net.listening (D.info i).address = false :=
  Bool.eq_false_iff.mpr fun hl => hiL ((h.listening i hi).mp hl)

/-- The survivors run. -/
theorem Detached.runs (h : D.Detached L done net) : (D.restrict h.subset).Runs net :=
  ⟨h.info, fun i hi => (h.listening i (h.subset hi)).mpr hi⟩

/-- A survivor reaches the other survivors, and no other node. -/
theorem Detached.reaches_iff (h : D.Detached L done net) (hi : i ∈ L) {j : NodeId}
    (hj : j ∈ D.ids) :
    net.reaches (D.info i).address (D.info j) = true ↔ j ≠ i ∧ j ∈ L := by
  have hself : (net.node (D.info i).address).info = D.info i := h.info i hi
  rw [Network.reaches_iff, hself, D.info_id, D.info_id, h.listening j hj]

/-- The first entry of the list of its next nodes that a survivor reaches is its next survivor. -/
theorem Detached.find_next (h : D.Detached L done net) (hback : D.LeadsBack L) (hi : i ∈ L) :
    (D.nextList D.ids i).find? (net.reaches (D.info i).address) = some (D.info (next L i)) := by
  have hids : i ∈ D.ids := h.subset hi
  have hcard : 1 < D.ids.card :=
    Nat.lt_of_lt_of_le (hback.one_lt_card hi) (Finset.card_le_card h.subset)
  obtain ⟨n, hn⟩ : ∃ n, D.ids.card = n + 2 := ⟨D.ids.card - 2, by omega⟩
  have hreach := fun k => h.reaches_iff hi (iterate_next_mem hids k)
  cases hfind : (D.nextList D.ids i).find? (net.reaches (D.info i).address) with
  | none =>
    obtain ⟨x, hx, hxL, hne⟩ := hback i hi
    have hnone := List.find?_eq_none.mp hfind x hx
    obtain ⟨k, -, rfl⟩ := List.mem_map.mp hx
    rw [D.info_id] at hxL hne
    exact absurd ((hreach _).mpr ⟨hne, hxL⟩) hnone
  | some y =>
    unfold nextList at hfind
    rw [List.find?_map, Option.map_eq_some_iff] at hfind
    obtain ⟨k, hk, rfl⟩ := hfind
    obtain ⟨hk, -, hbefore⟩ := List.find?_range_eq_some.mp hk
    -- The entry is the `m`-th node after the next one, and the nodes before it are dead.
    have hentry : ∀ j, min (j + 1) (D.ids.card - 1) = min j n + 1 := fun j => by omega
    simp only [Function.comp_apply, hentry] at hk hbefore ⊢
    refine congrArg (fun j => some (D.info j))
      (next_eq_iterate h.subset hids ?_ fun j hj hjL => ?_).symm
    · exact ((hreach _).mp hk).2
    · have hdead := hbefore j (by omega)
      rw [show min j n = j by omega, Bool.not_eq_true'] at hdead
      have hne := iterate_next_ne hids (Nat.succ_pos j) (by omega : j + 1 < D.ids.card)
      exact absurd ((hreach _).mpr ⟨hne, hjL⟩) (by rw [hdead]; exact Bool.false_ne_true)

/-- The first stabilization of a survivor leads it to its next survivor. -/
theorem Detached.stabilize_next (h : D.Detached L done net) (hback : D.LeadsBack L) (hi : i ∈ L)
    (hnew : (.stabilize, i) ∉ done) :
    Returns (stabilize (env reliable (depth + 3) (D.info i).address)) net fun _ net' =>
      SamePointers (net.setNode (D.info i).address
        { D.at' net.node i with successor := D.info (next L i) }) net' ∧
      ∀ b, b ≠ (D.info i).address →
        (net'.node b).successorList = (net.node b).successorList := by
  have hids : i ∈ D.ids := h.subset hi
  have hcard : 1 < D.ids.card :=
    Nat.lt_of_lt_of_le (hback.one_lt_card hi) (Finset.card_le_card h.subset)
  obtain ⟨hsucc, hlist⟩ := h.waiting i hi hnew
  have hself : (net.node (D.info i).address).info = D.info i := h.info i hi
  have hsucc' : (net.node (D.info i).address).successor = D.info (next D.ids i) := hsucc
  have hn : next D.ids i ∈ D.ids := next_mem ⟨i, hids⟩ i
  have hne : (net.node (D.info i).address).info.id
      ≠ (net.node (D.info i).address).successor.id := by
    rw [hself, hsucc', D.info_id, D.info_id]
    exact (next_ne_self hcard).symm
  by_cases hlive : next D.ids i ∈ L
  · have hl : net.listening (net.node (D.info i).address).successor.address = true := by
      rw [hsucc']
      exact (h.listening _ hn).mpr hlive
    have hsame : { D.at' net.node i with successor := D.info (next L i) } = D.at' net.node i := by
      rw [next_eq_next h.subset hids hlive, ← hsucc]
    -- The predecessor of the successor is the node itself, which is alive.
    have hpred : (D.at' net.node (next D.ids i)).predecessor = some (D.info i) := by
      have hp := h.predecessor _ hlive
      rw [prev_next hids] at hp
      exact hp.resolve_right fun hdead => hdead.1 hi
    rw [hsame, at', setNode_same]
    refine stabilize_refused hne hl ?_ ?_
    · refine answered_keep (D := D.restrict h.subset) h.runs hi hsucc fun x hx => ?_
      rw [show (D.at' net.node (next D.ids i)).predecessor = some x from hx] at hpred
      cases hpred
      rw [D.info_id]
      exact isBetween_start _ _
    · exact notified_refuse (D := D.restrict h.subset) h.runs hi hlive hsucc hpred
        (isBetween_start _ _)
  · have hl : net.listening (net.node (D.info i).address).successor.address = false := by
      rw [hsucc']
      exact h.not_listening hn hlive
    refine stabilize_replaced hne hl ?_
    rw [show (net.node (D.info i).address).successorList = D.nextList D.ids i from hlist]
    exact h.find_next hback hi

/-- The fingers and the data do not matter to the first phase. -/
theorem Detached.sameRing (h : D.Detached L done net) (hsame : SameRing net net') :
    D.Detached L done net' := by
  refine ⟨h.subset, fun j hj => (hsame.info _).trans (h.info j hj), fun j hj => ?_,
    fun j hj hnot => ?_, fun j hj hdone => (hsame.successor _).trans (h.moved j hj hdone),
    fun j hj => ?_, fun j hj hdone hdead => ?_⟩
  · rw [hsame.listening]
    exact h.listening j hj
  · obtain ⟨hsucc, hlist⟩ := h.waiting j hj hnot
    exact ⟨(hsame.successor _).trans hsucc, (hsame.successorList _).trans hlist⟩
  · rw [at', hsame.predecessor]
    exact h.predecessor j hj
  · exact (hsame.predecessor _).trans (h.cleared j hj hdone hdead)

/-- The first stabilization of a survivor. -/
theorem Detached.stabilize (h : D.Detached L done net) (hback : D.LeadsBack L) (hi : i ∈ L)
    (hnew : (.stabilize, i) ∉ done) :
    Returns (TaceChat.stabilize (env reliable (depth + 3) (D.info i).address)) net fun _ net' =>
      D.Detached L (done ++ [(.stabilize, i)]) net' := by
  refine (h.stabilize_next hback hi hnew).mono ?_
  rintro - net' ⟨hsame, hlist⟩
  have hids := h.subset hi
  -- The successor of the node is written, and no other pointer.
  have hat := at'_after_write net hids { D.at' net.node i with successor := D.info (next L i) }
  have hinfo : ∀ j ∈ L, (D.at' net'.node j).info = (D.at' net.node j).info := by
    intro j hj
    refine (hsame.info _).trans ((congrArg ChordNode.info (hat j (h.subset hj))).trans ?_)
    by_cases hji : j = i <;> simp [hji]
  have hpred : ∀ j ∈ L, (D.at' net'.node j).predecessor = (D.at' net.node j).predecessor := by
    intro j hj
    refine (hsame.predecessor _).trans
      ((congrArg ChordNode.predecessor (hat j (h.subset hj))).trans ?_)
    by_cases hji : j = i <;> simp [hji]
  have hsucc : ∀ j ∈ L, (D.at' net'.node j).successor
      = if j = i then D.info (next L i) else (D.at' net.node j).successor := by
    intro j hj
    refine (hsame.successor _).trans ((congrArg ChordNode.successor (hat j (h.subset hj))).trans ?_)
    by_cases hji : j = i <;> simp [hji]
  refine ⟨h.subset, fun j hj => (hinfo j hj).trans (h.info j hj), fun j hj => ?_,
    fun j hj hnot => ?_, fun j hj hdone => ?_, fun j hj => ?_, fun j hj hdone hdead => ?_⟩
  · rw [hsame.listening]
    exact h.listening j hj
  · simp only [List.mem_append, List.mem_singleton, Prod.mk.injEq, true_and, not_or] at hnot
    obtain ⟨hold, hlistj⟩ := h.waiting j hj hnot.1
    rw [hsucc j hj, if_neg hnot.2]
    exact ⟨hold, (hlist _ fun heq => hnot.2 (D.address_inj j (h.subset hj) i hids heq)).trans
      hlistj⟩
  · simp only [List.mem_append, List.mem_singleton, Prod.mk.injEq, true_and] at hdone
    rw [hsucc j hj]
    by_cases hji : j = i
    · rw [if_pos hji, hji]
    · rw [if_neg hji]
      exact h.moved j hj (hdone.resolve_right hji)
  · rw [hpred j hj]
    exact h.predecessor j hj
  · simp only [List.mem_append, List.mem_singleton, Prod.mk.injEq, reduceCtorEq, false_and,
      or_false] at hdone
    rw [hpred j hj]
    exact h.cleared j hj hdone hdead

/-- A survivor without a predecessor that is dead counts as checked. -/
theorem Detached.checked (h : D.Detached L done net)
    (hclear : prev D.ids i ∉ L → (D.at' net.node i).predecessor = none) :
    D.Detached L (done ++ [(.checkPredecessor, i)]) net := by
  refine { h with waiting := fun j hj hnot => ?_, moved := fun j hj hdone => ?_,
                  cleared := fun j hj hdone hdead => ?_ }
  · exact h.waiting j hj fun hdone => hnot (List.mem_append_left _ hdone)
  · simp only [List.mem_append, List.mem_singleton, Prod.mk.injEq, reduceCtorEq, false_and,
      or_false] at hdone
    exact h.moved j hj hdone
  · simp only [List.mem_append, List.mem_singleton, Prod.mk.injEq, true_and] at hdone
    rcases hdone with hdone | rfl
    · exact h.cleared j hj hdone hdead
    · exact hclear hdead

/-- A dead predecessor may be cleared. -/
theorem Detached.clear (h : D.Detached L done net) (hi : i ∈ L) (hdead : prev D.ids i ∉ L) :
    D.Detached L done (net.setNode (D.info i).address
      { D.at' net.node i with predecessor := none }) := by
  have hat := at'_after_write net (h.subset hi) { D.at' net.node i with predecessor := none }
  refine ⟨h.subset, fun j hj => ?_, h.listening, fun j hj hnot => ?_, fun j hj hdone => ?_,
    fun j hj => ?_, fun j hj hdone hdeadj => ?_⟩
  · have hold := h.info j hj
    rw [hat j (h.subset hj)]
    by_cases hji : j = i <;> simp_all
  · have hold := h.waiting j hj hnot
    rw [listAt, hat j (h.subset hj)]
    by_cases hji : j = i <;> simp_all [listAt]
  · have hold := h.moved j hj hdone
    rw [hat j (h.subset hj)]
    by_cases hji : j = i <;> simp_all
  · rw [hat j (h.subset hj)]
    by_cases hji : j = i
    · rw [if_pos hji, hji]
      exact Or.inr ⟨hdead, rfl⟩
    · rw [if_neg hji]
      exact h.predecessor j hj
  · rw [hat j (h.subset hj)]
    by_cases hji : j = i
    · rw [if_pos hji]
    · rw [if_neg hji]
      exact h.cleared j hj hdone hdeadj

/-- A check of the predecessor of a survivor. -/
theorem Detached.checkPredecessor (h : D.Detached L done net) (hi : i ∈ L) :
    Returns (TaceChat.checkPredecessor (env reliable (depth + 1) (D.info i).address)) net
      fun _ net' => D.Detached L (done ++ [(.checkPredecessor, i)]) net' := by
  have hprev : prev D.ids i ∈ D.ids := prev_mem ⟨i, h.subset hi⟩ i
  rcases h.predecessor i hi with hpred | ⟨hdead, hpred⟩
  · have hpred' : (net.node (D.info i).address).predecessor = some (D.info (prev D.ids i)) := hpred
    by_cases hdead : prev D.ids i ∈ L
    · refine (checkPredecessor_alive fun p hp => ?_).mono ?_
      · rw [hpred'] at hp
        cases hp
        exact (h.listening _ hprev).mpr hdead
      · rintro - net' rfl
        exact h.checked fun hnot => absurd hdead hnot
    · refine (checkPredecessor_dead hpred' (h.not_listening hprev hdead)).mono ?_
      rintro - net' hsame
      refine ((h.clear hi hdead).sameRing hsame).checked fun _ => ?_
      refine (hsame.predecessor _).trans ?_
      rw [setNode_node_self]
  · refine (checkPredecessor_alive fun p hp => ?_).mono ?_
    · rw [show (net.node (D.info i).address).predecessor = none from hpred] at hp
      cases hp
    · rintro - net' rfl
      exact h.checked fun _ => hpred

/-- A task of a survivor. -/
theorem Detached.step (h : D.Detached L done net) (hback : D.LeadsBack L)
    {t : Upkeep × NodeId} (ht : t.2 ∈ L) (hnew : t.1 = .stabilize → t ∉ done) :
    Returns (t.1.run (env reliable (depth + 3) (D.info t.2).address)) net fun _ net' =>
      D.Detached L (done ++ [t]) net' := by
  obtain ⟨task, i⟩ := t
  cases task with
  | stabilize => exact h.stabilize hback ht (hnew rfl)
  | checkPredecessor => exact h.checkPredecessor ht
  | fixFingers k =>
    refine (fixFingers_sameRing k).mono fun _ net' hsame => ?_
    have hnet' := h.sameRing hsame
    refine { hnet' with waiting := fun j hj hnot => ?_, moved := fun j hj hdone => ?_,
                        cleared := fun j hj hdone hdead => ?_ }
    · exact hnet'.waiting j hj fun hdone => hnot (List.mem_append_left _ hdone)
    · simp only [List.mem_append, List.mem_singleton, Prod.mk.injEq, reduceCtorEq, false_and,
        or_false] at hdone
      exact hnet'.moved j hj hdone
    · simp only [List.mem_append, List.mem_singleton, Prod.mk.injEq, reduceCtorEq, false_and,
        or_false] at hdone
      exact hnet'.cleared j hj hdone hdead

/-- The survivors run tasks, and none of them stabilizes twice. -/
theorem Detached.run (h : D.Detached L done net) (hback : D.LeadsBack L)
    {tasks : List (Upkeep × NodeId)} (hlive : ∀ t ∈ tasks, t.2 ∈ L)
    (hnew : ∀ t ∈ tasks, t.1 = .stabilize → t ∉ done)
    (honce : tasks.Pairwise fun t u => t.1 = .stabilize → u ≠ t) :
    Returns (forM tasks fun t => t.1.run (env reliable (depth + 3) (D.info t.2).address)) net
      fun _ net' => D.Detached L (done ++ tasks) net' := by
  induction tasks generalizing done net with
  | nil =>
    rw [List.append_nil]
    exact returns_pure.mpr h
  | cons t tasks ih =>
    obtain ⟨ht, hlive⟩ := List.forall_mem_cons.mp hlive
    obtain ⟨hnewt, hnew⟩ := List.forall_mem_cons.mp hnew
    obtain ⟨hother, honce⟩ := List.pairwise_cons.mp honce
    rw [List.forM_cons]
    refine (h.step hback ht hnewt).bind fun _ net₁ h₁ => ?_
    refine (ih h₁ hlive (fun u hu hstab hmem => ?_) honce).mono fun _ net' h' => ?_
    · rcases List.mem_append.mp hmem with hdone | hlast
      · exact hnew u hu hstab hdone
      · have heq := List.mem_singleton.mp hlast
        exact hother u hu (heq ▸ hstab) heq
    · rwa [List.append_assoc, List.singleton_append] at h'

/-! ### The second phase -/

/-- The successors of a ring are exact, and a node has the node before it as its predecessor once
that one has stabilized. -/
structure Noticing (D : Directory) (done : List (Upkeep × NodeId)) (net : Network Unit) : Prop
    extends D.Runs net where
  successor : ∀ i ∈ D.ids, (D.at' net.node i).successor = D.info (next D.ids i)
  predecessor : ∀ i ∈ D.ids, (D.at' net.node i).predecessor = none ∨
    (D.at' net.node i).predecessor = some (D.info (prev D.ids i))
  noticed : ∀ i ∈ D.ids, (.stabilize, i) ∈ done →
    (D.at' net.node (next D.ids i)).predecessor = some (D.info i)

/-- The lists and the data do not matter to the second phase. -/
theorem Noticing.samePointers (h : D.Noticing done net) (hsame : SamePointers net net') :
    D.Noticing done net' := by
  refine ⟨hsame.runs h.toRuns, fun i hi => (hsame.successor _).trans (h.successor i hi),
    fun i hi => ?_, fun i hi hdone => (hsame.predecessor _).trans (h.noticed i hi hdone)⟩
  rw [at', hsame.predecessor]
  exact h.predecessor i hi

/-- A task other than a stabilization notifies nobody. -/
theorem Noticing.snoc (h : D.Noticing done net) {task : Upkeep} (htask : task ≠ .stabilize) :
    D.Noticing (done ++ [(task, i)]) net := by
  refine { h with noticed := fun j hj hdone => ?_ }
  rcases List.mem_append.mp hdone with hdone | hlast
  · exact h.noticed j hj hdone
  · exact absurd (Prod.mk.inj (List.mem_singleton.mp hlast)).1.symm htask

/-- A successor without a predecessor accepts the notification. -/
theorem Noticing.accepted (h : D.Noticing done net) (hcard : 1 < D.ids.card) (hi : i ∈ D.ids)
    (hnone : (D.at' net.node (next D.ids i)).predecessor = none) :
    D.Noticing (done ++ [(.stabilize, i)]) (net.notified (D.info i).address) := by
  have hs : next D.ids i ∈ D.ids := next_mem ⟨i, hi⟩ i
  have hsucc : (D.at' net.node (next D.ids i)).successor.id ≠ next D.ids i := by
    rw [h.successor _ hs, D.info_id]
    exact next_ne_self hcard
  rw [notified_accept h.toRuns hi hs (next_ne_self hcard).symm (h.successor i hi)
    (fun x hx => by rw [hnone] at hx; cases hx), if_neg hsucc]
  have hat := at'_after_write net hs
    { D.at' net.node (next D.ids i) with
      predecessor := some (D.info i)
      successor := (D.at' net.node (next D.ids i)).successor }
  refine ⟨h.toRuns.setNode hs (h.info _ hs), fun j hj => ?_, fun j hj => ?_, fun j hj hdone => ?_⟩
  · rw [hat j hj]
    split
    · rename_i hjs
      rw [hjs]
      exact h.successor _ hs
    · exact h.successor j hj
  · rw [hat j hj]
    split
    · rename_i hjs
      rw [hjs, prev_next hi]
      exact Or.inr rfl
    · exact h.predecessor j hj
  · rw [hat _ (next_mem ⟨i, hi⟩ j)]
    simp only [List.mem_append, List.mem_singleton, Prod.mk.injEq, true_and] at hdone
    by_cases hji : j = i
    · rw [hji, if_pos rfl]
    · -- Another node has another successor.
      have hne : next D.ids j ≠ next D.ids i := fun heq => hji (by
        rw [← prev_next hj, heq, prev_next hi])
      rw [if_neg hne]
      exact h.noticed j hj (hdone.resolve_right hji)

/-- A stabilization makes the successor notice the node. -/
theorem Noticing.stabilize (h : D.Noticing done net) (hcard : 1 < D.ids.card) (hi : i ∈ D.ids) :
    Returns (TaceChat.stabilize (env reliable (depth + 3) (D.info i).address)) net fun _ net' =>
      D.Noticing (done ++ [(.stabilize, i)]) net' := by
  have hs : next D.ids i ∈ D.ids := next_mem ⟨i, hi⟩ i
  have hsucc := h.successor i hi
  have hpred := h.predecessor _ hs
  rw [prev_next hi] at hpred
  have hanswered : net.answered (D.info i).address = net := by
    refine answered_keep h.toRuns hi hsucc fun x hx => ?_
    rw [hx] at hpred
    rcases hpred with hnone | hself
    · cases hnone
    · cases hself
      rw [D.info_id]
      exact isBetween_start _ _
  have hround : Returns (TaceChat.stabilize (env reliable (depth + 3) (D.info i).address)) net
      fun _ net' => D.Runs net' ∧ SamePointers
        ((net.answered (D.info i).address).notified (D.info i).address) net' :=
    stabilize_member h.toRuns hi hs hs (next_ne_self hcard).symm hsucc (by rwa [hanswered])
  rw [hanswered] at hround
  refine hround.mono ?_
  rintro - net' ⟨-, hsame⟩
  refine Noticing.samePointers ?_ hsame
  rcases hpred with hnone | hself
  · exact h.accepted hcard hi hnone
  · -- The successor knows this node already.
    rw [notified_refuse h.toRuns hi hs hsucc hself (isBetween_start _ _)]
    refine { h with noticed := fun j hj hdone => ?_ }
    simp only [List.mem_append, List.mem_singleton, Prod.mk.injEq, true_and] at hdone
    rcases hdone with hdone | rfl
    · exact h.noticed j hj hdone
    · exact hself

/-- One task of the second phase. -/
theorem Noticing.step (h : D.Noticing done net) (hcard : 1 < D.ids.card) {t : Upkeep × NodeId}
    (ht : t.2 ∈ D.ids) :
    Returns (t.1.run (env reliable (depth + 3) (D.info t.2).address)) net fun _ net' =>
      D.Noticing (done ++ [t]) net' := by
  obtain ⟨task, i⟩ := t
  cases task with
  | stabilize => exact h.stabilize hcard ht
  | fixFingers k =>
    refine (fixFingers_sameRing k).mono fun _ net' hsame => ?_
    exact (h.samePointers hsame.toSamePointers).snoc fun heq => by cases heq
  | checkPredecessor =>
    refine (checkPredecessor_alive fun p hp => ?_).mono ?_
    · -- A predecessor is the node before, which runs.
      have hpred : some p = none ∨ some p = some (D.info (prev D.ids i)) := hp ▸ h.predecessor i ht
      rcases hpred with hnone | hprev
      · cases hnone
      · cases hprev
        exact h.listening _ (prev_mem ⟨i, ht⟩ i)
    · rintro - net' rfl
      exact h.snoc fun heq => by cases heq

/-- All the tasks of the second phase, by induction. -/
theorem Noticing.run (h : D.Noticing done net) (hcard : 1 < D.ids.card)
    {tasks : List (Upkeep × NodeId)} (hlive : ∀ t ∈ tasks, t.2 ∈ D.ids) :
    Returns (forM tasks fun t => t.1.run (env reliable (depth + 3) (D.info t.2).address)) net
      fun _ net' => D.Noticing (done ++ tasks) net' := by
  induction tasks generalizing done net with
  | nil =>
    rw [List.append_nil]
    exact returns_pure.mpr h
  | cons t tasks ih =>
    obtain ⟨ht, hlive⟩ := List.forall_mem_cons.mp hlive
    rw [List.forM_cons]
    refine (h.step hcard ht).bind fun _ net₁ h₁ => (ih h₁ hlive).mono fun _ net' h' => ?_
    rwa [List.append_assoc, List.singleton_append] at h'

/-- When all nodes have stabilized the ring is exact. -/
theorem Noticing.exactPointers (h : D.Noticing done net) (hcard : 1 < D.ids.card)
    (hall : ∀ i ∈ D.ids, (.stabilize, i) ∈ done) : D.ExactPointers D.ids net.node := by
  refine ⟨h.successor, fun i hi => ?_⟩
  have hp : prev D.ids i ∈ D.ids := prev_mem ⟨i, hi⟩ i
  have hnoticed := h.noticed _ hp (hall _ hp)
  rw [next_prev hi] at hnoticed
  rw [hnoticed, predecessorIn, if_neg (by omega)]

/-- The survivors after the first phase. -/
theorem Detached.noticing (h : D.Detached L done net)
    (hall : ∀ i ∈ L, (.stabilize, i) ∈ done ∧ (.checkPredecessor, i) ∈ done) :
    (D.restrict h.subset).Noticing [] net := by
  refine ⟨h.runs, fun i hi => h.moved i hi (hall i hi).1, fun i hi => ?_, by simp⟩
  rcases h.predecessor i hi with hpred | ⟨-, hnone⟩
  · by_cases hdead : prev D.ids i ∈ L
    · refine Or.inr (hpred.trans ?_)
      rw [← prev_eq_prev h.subset hi hdead]
      rfl
    · exact Or.inl (h.cleared i hi (hall i hi).2 hdead)
  · exact Or.inl hnone

/-- The survivors right after the crash. -/
theorem detached_crash {dead : String → Bool} (hrun : D.Runs net)
    (hexact : D.ExactPointers D.ids net.node)
    (hlists : ∀ i ∈ D.ids, D.listAt net i = D.nextList D.ids i)
    (hleft : ∀ i, i ∈ L ↔ i ∈ D.ids ∧ dead (D.info i).address = false) (hback : D.LeadsBack L) :
    D.Detached L [] (net.crash dead) := by
  have hsub : L ⊆ D.ids := fun i hi => ((hleft i).mp hi).1
  refine ⟨hsub, fun i hi => hrun.info i (hsub hi), fun i hi => ?_,
    fun i hi _ => ⟨hexact.successor i (hsub hi), hlists i (hsub hi)⟩, by simp,
    fun i hi => Or.inl ?_, by simp⟩
  · show (net.listening (D.info i).address && !dead (D.info i).address) = true ↔ i ∈ L
    rw [hrun.listening i hi, Bool.true_and, Bool.not_eq_true', hleft, and_iff_right hi]
  · have hcard := Nat.lt_of_lt_of_le (hback.one_lt_card hi) (Finset.card_le_card hsub)
    exact (hexact.predecessor i (hsub hi)).trans (if_neg (by omega))

end Directory

/-- A correct ring in which nodes stop heals, when each node that is left has another one in its
successor list. In the first of three phases each of them stabilizes once and checks its
predecessor, in the second and the third each of them stabilizes at least once, all in any order and
with any other tasks in between. Then the ring of the nodes that are left is correct. -/
theorem crash_heals (D : Directory) (L : Finset NodeId) (dead : String → Bool)
    (net : Network Unit) (depth : ℕ) (first second third : List (Upkeep × NodeId))
    (hrun : D.Runs net) (hexact : D.ExactPointers D.ids net.node)
    (hlists : ∀ i ∈ D.ids, (D.at' net.node i).successorList = D.nextList D.ids i)
    (hleft : ∀ i, i ∈ L ↔ i ∈ D.ids ∧ dead (D.info i).address = false)
    (hback : ∀ i ∈ L, ∃ x ∈ D.nextList D.ids i, x.id ∈ L ∧ x.id ≠ i)
    (hlive : ∀ t ∈ first ++ second ++ third, t.2 ∈ L)
    (honce : first.Pairwise fun t u => t.1 = .stabilize → u ≠ t)
    (hfirst : ∀ i ∈ L, (.stabilize, i) ∈ first ∧ (.checkPredecessor, i) ∈ first)
    (hsecond : ∀ i ∈ L, (.stabilize, i) ∈ second) (hthird : ∀ i ∈ L, (.stabilize, i) ∈ third) :
    Returns (do
        forM first fun t => t.1.run (env reliable (depth + 3) (D.info t.2).address)
        forM second fun t => t.1.run (env reliable (depth + 3) (D.info t.2).address)
        forM third fun t => t.1.run (env reliable (depth + 3) (D.info t.2).address))
      (net.crash dead) fun _ net' =>
        D.ExactPointers L net'.node ∧
          ∀ i ∈ L, (D.at' net'.node i).successorList = D.nextList L i := by
  obtain ⟨hlive, hlive₃⟩ := List.forall_mem_append.mp hlive
  obtain ⟨hlive₁, hlive₂⟩ := List.forall_mem_append.mp hlive
  have hcrash := Directory.detached_crash hrun hexact hlists hleft hback
  have hsub := hcrash.subset
  refine (hcrash.run hback hlive₁ (by simp) honce).bind fun _ net₁ h₁ => ?_
  have hnoticing : (D.restrict hsub).Noticing [] net₁ := h₁.noticing hfirst
  by_cases hcard : 1 < L.card
  · refine (hnoticing.run hcard hlive₂).bind fun _ net₂ h₂ => ?_
    have hpointers := h₂.exactPointers hcard hsecond
    have hlast : Returns
        (forM third fun t => t.1.run (env reliable (depth + 3) (D.info t.2).address)) net₂ _ :=
      Directory.forM_upkeep_exact (D := D.restrict hsub) third h₂.toRuns hpointers hlive₃
    refine hlast.mono ?_
    rintro - net' ⟨hkeep, -, hlist⟩
    obtain ⟨hsucc, hpred⟩ := hkeep.toSamePointers.exactPointers hpointers
    exact ⟨⟨hsucc, hpred⟩, fun i hi => hlist i (hthird i hi) hcard⟩
  · -- Then nobody is left, and nothing runs.
    have hnone : ∀ i, i ∉ L := fun i hi => hcard (Directory.LeadsBack.one_lt_card hback hi)
    obtain rfl : second = [] := List.eq_nil_iff_forall_not_mem.mpr fun t ht => hnone _ (hlive₂ t ht)
    obtain rfl : third = [] := List.eq_nil_iff_forall_not_mem.mpr fun t ht => hnone _ (hlive₃ t ht)
    exact returns_pure.mpr ⟨⟨fun i hi => absurd hi (hnone i), fun i hi => absurd hi (hnone i)⟩,
      fun i hi => absurd hi (hnone i)⟩

/-! ### A ring of three nodes that loses one -/

/-- The ids of the ring. -/
def trioIds : Finset NodeId := {biguintToNodeId 10, biguintToNodeId 20, biguintToNodeId 30}

/-- The ids that are left when the node 20 stops. -/
def leftOfTrio : Finset NodeId := {biguintToNodeId 10, biguintToNodeId 30}

/-- The tasks of one pass through the background loops of the two nodes. -/
def trioRound : List (Upkeep × NodeId) :=
  [(.stabilize, biguintToNodeId 10), (.stabilize, biguintToNodeId 30),
    (.checkPredecessor, biguintToNodeId 30), (.checkPredecessor, biguintToNodeId 10)]

/-- Of the three nodes, the node 20 has crashed. -/
theorem leftOfTrio_iff (i : NodeId) : i ∈ leftOfTrio ↔
    i ∈ trioIds ∧ decide (idOf (infoOf i).address = biguintToNodeId 20) = false := by
  have h10 : biguintToNodeId 10 ≠ biguintToNodeId 20 := by decide
  have h30 : biguintToNodeId 30 ≠ biguintToNodeId 20 := by decide
  rw [show idOf (infoOf i).address = i from idOf_addressOf i, decide_eq_false_iff_not]
  simp only [leftOfTrio, trioIds, Finset.mem_insert, Finset.mem_singleton]
  constructor
  · rintro (rfl | rfl)
    · exact ⟨Or.inl rfl, h10⟩
    · exact ⟨Or.inr (Or.inr rfl), h30⟩
  · rintro ⟨rfl | rfl | rfl, h20⟩
    · exact Or.inl rfl
    · exact absurd rfl h20
    · exact Or.inr rfl

/-- Each of the other two has the other one in its list. -/
theorem trio_leadsBack : (Directory.ofIds trioIds).LeadsBack leftOfTrio := by
  intro i hi
  have hring := exactRing_ofIds trioIds
  have hids : i ∈ trioIds := ((leftOfTrio_iff i).mp hi).1
  obtain ⟨j, hj, hji⟩ := Finset.exists_mem_ne (by decide : 1 < leftOfTrio.card) i
  refine ⟨infoOf j, ?_, hj, hji⟩
  rw [← hring.successorList i hids]
  exact hring.mem_successorList (by decide) hids ((leftOfTrio_iff j).mp hj).1 hji

/-- `crash_heals` when the node 20 of the ring 10, 20, 30 stops. -/
theorem crash_heals_trio :
    Returns (do
        forM trioRound fun t => t.1.run (env reliable 3 (infoOf t.2).address)
        forM trioRound fun t => t.1.run (env reliable 3 (infoOf t.2).address)
        forM trioRound fun t => t.1.run (env reliable 3 (infoOf t.2).address))
      ((Network.ofIds (exactNode trioIds)).crash fun address => idOf address = biguintToNodeId 20)
      fun _ net' => ((Directory.ofIds trioIds).at' net'.node (biguintToNodeId 10)).successor
        = infoOf (biguintToNodeId 30) := by
  have hring := exactRing_ofIds trioIds
  have hround : ∀ i ∈ leftOfTrio,
      (.stabilize, i) ∈ trioRound ∧ (.checkPredecessor, i) ∈ trioRound := by
    intro i hi
    simp only [leftOfTrio, Finset.mem_insert, Finset.mem_singleton] at hi
    rcases hi with rfl | rfl <;> simp [trioRound]
  have hlive : ∀ t ∈ trioRound ++ trioRound ++ trioRound, t.2 ∈ leftOfTrio := by
    intro t ht
    simp only [List.mem_append, or_self, trioRound, List.mem_cons, List.not_mem_nil, or_false] at ht
    rcases ht with rfl | rfl | rfl | rfl <;> decide
  refine (crash_heals (Directory.ofIds trioIds) leftOfTrio
    (fun address => idOf address = biguintToNodeId 20) (Network.ofIds (exactNode trioIds)) 0
    trioRound trioRound trioRound hring.toRuns hring.pointers hring.successorList leftOfTrio_iff
    trio_leadsBack hlive ?_ hround (fun i hi => (hround i hi).1) fun i hi =>
      (hround i hi).1).mono ?_
  · have hne : biguintToNodeId 10 ≠ biguintToNodeId 30 := by decide
    simp [trioRound, hne.symm]
  · rintro - net' ⟨hexact, -⟩
    rw [hexact.successor _ (by decide)]
    refine congrArg infoOf (next_eq (by decide) fun c hc => ?_)
    simp only [leftOfTrio, Finset.mem_insert, Finset.mem_singleton] at hc
    rcases hc with rfl | rfl <;> decide

end TaceChat
