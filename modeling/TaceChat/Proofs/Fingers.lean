import TaceChat.Library.Gaps
import TaceChat.Proofs.Acknowledged
import TaceChat.Proofs.Hops

/-!
# Fingers that lead lookups

In a ring with exact pointers, a lookup finds the owner of a key when it comes on target within
`MAX_RETRIES` hops (`Directory.Found`). Whether it does is up to the fingers, and the background
tasks rewrite them. `Directory.LeadsLookups` is a condition on finger tables under which lookups
come on target and which a refreshed entry keeps. There are two of them.

* A ring with refreshed fingers writes the entries that it has (`leadsLookups_refreshed`).
* In a ring of at most `MAX_RETRIES + 1` nodes it is enough that the entry 1 is the successor, so
  that every hop passes a node (`leadsLookups_tuned`).
-/

set_option autoImplicit false

namespace TaceChat

open IdCircle Network

namespace Directory

variable {D : Directory} {net net' : Network Unit} {depth : ℕ} {i q key : NodeId}

/-! ### Rings with exact pointers -/

/-- A ring with exact pointers. The fingers and the successor lists have members only. -/
structure LinkedRing (D : Directory) (net : Network Unit) : Prop extends D.Serves net where
  pointers : D.ExactPointers D.ids net.node

/-- A lookup comes on target within `MAX_RETRIES` hops. -/
def Found (D : Directory) (nodes : String → ChordNode) (q key : NodeId) : Prop :=
  D.ids.card = 1 ∨ ∃ h ≤ maxRetries, D.OnTarget nodes key ((D.hop nodes key)^[h] q)

/-- The finger table of a node. -/
def fingersAt (D : Directory) (net : Network Unit) (i : NodeId) : List NodeInfo :=
  (D.at' net.node i).fingerTable

namespace LinkedRing

/-- The node at the address of a member is that member. -/
theorem info_eq (h : D.LinkedRing net) (hq : q ∈ D.ids) :
    (net.node (D.info q).address).info = D.info q := h.info q hq

/-- The successors are the next members. -/
theorem exactSuccessors (h : D.LinkedRing net) : D.ExactSuccessors D.ids net.node :=
  fun i hi => (congrArg NodeInfo.id (h.pointers.successor i hi)).trans (D.info_id _)

/-- A lookup that comes on target finds the owner and changes nothing. -/
theorem findSuccessor (h : D.LinkedRing net) (hq : q ∈ D.ids) (hfound : D.Found net.node q key) :
    Returns (TaceChat.findSuccessor (env reliable (depth + 1) (D.info q).address) key) net
      fun r net' => r = D.info (owner D.ids key) ∧ net' = net := by
  refine (findSuccessor_finds_owner reliable_budget h.toServes h.exactSuccessors hq ?_).mono
    fun _ _ hr => ⟨hr.1, hr.2.eq⟩
  refine hfound.imp_right fun hsteps => ?_
  obtain ⟨n, hn, hon⟩ := hsteps
  exact ⟨n, hn, trivial, hon⟩

/-- A ring that changes its data only. -/
theorem changesData {P : NodeId → Prop} (h : D.LinkedRing net) (hdata : ChangesData P net net') :
    D.LinkedRing net' := by
  have hsame := hdata.samePointers
  refine ⟨⟨hsame.runs h.toRuns, fun i hi => ?_⟩, hsame.exactPointers h.pointers⟩
  obtain ⟨d, hd, -⟩ := hdata.2 (D.info i).address
  obtain ⟨hinfo, hsucc, hlist, hpred, hfinger⟩ := h.reports i hi
  rw [at', hd]
  exact ⟨hinfo, hsucc, hlist, hpred, hfinger⟩

/-- Data is no finger. -/
theorem fingersAt_changesData {P : NodeId → Prop} (hdata : ChangesData P net net') (i : NodeId) :
    D.fingersAt net' i = D.fingersAt net i := by
  obtain ⟨d, hd, -⟩ := hdata.2 (D.info i).address
  rw [fingersAt, at', hd]
  rfl

/-- The background tasks keep the pointers and the data. The fingers change in the entry that is
refreshed, which becomes the owner of its target when the lookup comes on target. -/
theorem upkeep (h : D.LinkedRing net) (hq : q ∈ D.ids) (task : Upkeep) :
    Returns (task.run (env reliable (depth + 1) (D.info q).address)) net fun _ net' =>
      D.LinkedRing net' ∧ KeepsPointers net net' ∧
      ∀ i ∈ D.ids,
        ((∀ k, task = .fixFingers k → i ≠ q) ∧ D.fingersAt net' i = D.fingersAt net i) ∨
        ∃ k finger, task = .fixFingers k ∧ i = q ∧
          D.fingersAt net' i = (D.fingersAt net i).set k finger ∧
          (D.Found net.node q (addIdPowerOf2 q k) →
            finger = D.info (owner D.ids (addIdPowerOf2 q k))) := by
  have hmember : ∀ {net' : Network Unit}, KeepsPointers net net' →
      (∀ i ∈ D.ids, ∀ x ∈ D.listAt net' i, D.Known x) →
      (∀ i ∈ D.ids, ∀ x ∈ D.fingersAt net' i, D.Known x) → D.LinkedRing net' := by
    intro net' hkeeps hlists hfingers
    refine ⟨⟨hkeeps.runs h.toRuns, fun i hi => ?_⟩, hkeeps.exactPointers h.pointers⟩
    obtain ⟨hinfo, hsucc, -, hpred, -⟩ := h.reports i hi
    refine ⟨?_, ?_, hlists i hi, fun x hx => ?_, hfingers i hi⟩
    · rw [at', hkeeps.info]
      exact hinfo
    · rw [at', hkeeps.successor]
      exact hsucc
    · rw [at', hkeeps.predecessor] at hx
      exact hpred x hx
  have hlist : ∀ i ∈ D.ids, ∀ x ∈ D.listAt net i, D.Known x := fun i hi =>
    (h.reports i hi).successorList
  have hfinger : ∀ i ∈ D.ids, ∀ x ∈ D.fingersAt net i, D.Known x := fun i hi =>
    (h.reports i hi).fingerTable
  cases task with
  | stabilize =>
    refine (stabilize_exact h.toRuns (Finset.Subset.refl _) h.pointers hq).mono ?_
    rintro - net' ⟨list, rfl, hnew, -⟩
    have hkeeps : KeepsPointers net (net.withList (D.info q).address list) :=
      .setNode (.setNode rfl rfl rfl) rfl
    have hsame : ∀ i ∈ D.ids, D.fingersAt (net.withList (D.info q).address list) i =
        D.fingersAt net i := by
      intro i hi
      rw [fingersAt, withList, at'_setNode hq hi]
      split
      · rename_i hiq
        rw [hiq]
        rfl
      · rfl
    refine ⟨hmember hkeeps (fun i hi x hx => ?_) fun i hi x hx => ?_, hkeeps,
      fun i hi => Or.inl ⟨by simp, hsame i hi⟩⟩
    · rw [listAt, withList, at'_setNode hq hi] at hx
      split at hx
      · rcases hnew with rfl | rfl
        · exact hlist q hq x hx
        · obtain ⟨k, -, rfl⟩ := List.mem_map.mp hx
          exact known_info (iterate_next_mem hq _)
      · exact hlist i hi x hx
    · exact hfinger i hi x (hsame i hi ▸ hx)
  | fixFingers k =>
    have hlookup : Returns (TaceChat.findSuccessor (env reliable (depth + 1) (D.info q).address)
        (addIdPowerOf2 q k)) net fun finger net' => net' = net ∧ D.Known finger ∧
          (D.Found net.node q (addIdPowerOf2 q k) →
            finger = D.info (owner D.ids (addIdPowerOf2 q k))) := by
      by_cases hfound : D.Found net.node q (addIdPowerOf2 q k)
      · refine (h.findSuccessor hq hfound).mono ?_
        rintro _ net' ⟨rfl, hnet⟩
        exact ⟨hnet, known_info (owner_mem ⟨q, hq⟩ _), fun _ => rfl⟩
      · refine (findSuccessor_finds h.closed (h.reports q hq) _).mono ?_
        rintro finger net' ⟨hsame, hknown⟩
        exact ⟨hsame.eq, hknown, fun hyes => absurd hyes hfound⟩
    simp only [Upkeep.run, fixFingers, returns_bind, returns_safeLock, env_node, h.info_eq hq,
      D.info_id]
    refine hlookup.mono ?_
    rintro finger net' ⟨rfl, hknown, hexact⟩
    rw [returns_safeUpdate, env_node, env_setNode]
    have hset : ∀ i ∈ D.ids, D.fingersAt (net'.setNode (D.info q).address
        { net'.node (D.info q).address with
          fingerTable := (net'.node (D.info q).address).fingerTable.set k finger }) i =
        if i = q then (D.fingersAt net' i).set k finger else D.fingersAt net' i := by
      intro i hi
      rw [fingersAt, at'_setNode hq hi]
      split
      · rename_i hiq
        rw [hiq]
        rfl
      · rfl
    refine ⟨hmember (.setNode (.setNode rfl rfl rfl) rfl) (fun i hi x hx => ?_) fun i hi x hx => ?_,
      .setNode (.setNode rfl rfl rfl) rfl, fun i hi => ?_⟩
    · rw [listAt, at'_setNode hq hi] at hx
      split at hx
      · exact hlist q hq x hx
      · exact hlist i hi x hx
    · rw [hset i hi] at hx
      split at hx
      · rcases List.mem_or_eq_of_mem_set hx with hold | rfl
        · exact hfinger i hi x hold
        · exact hknown
      · exact hfinger i hi x hx
    · rw [hset i hi]
      split
      · rename_i hiq
        exact Or.inr ⟨k, finger, rfl, hiq, rfl, hexact⟩
      · rename_i hiq
        exact Or.inl ⟨fun _ _ => hiq, rfl⟩
  | checkPredecessor =>
    refine (checkPredecessor_exact h.toRuns (Finset.Subset.refl _) h.pointers hq).mpr ?_
    exact ⟨h, .refl net, fun _ _ => Or.inl ⟨by simp, rfl⟩⟩

end LinkedRing

/-! ### Conditions on finger tables -/

/-- As long as the finger tables have `F`, the lookups of the keys `keys` come on target, and the
refreshments `draws` keep `F`. -/
structure LeadsLookups (D : Directory) (F : NodeId → List NodeInfo → Prop)
    (keys : NodeId → NodeId → Prop) (draws : NodeId → ℕ → Prop) : Prop where
  found : ∀ net, D.LinkedRing net → (∀ i ∈ D.ids, F i (D.fingersAt net i)) →
    ∀ q ∈ D.ids, ∀ key, keys q key → D.Found net.node q key
  refresh : ∀ net, D.LinkedRing net → (∀ i ∈ D.ids, F i (D.fingersAt net i)) →
    ∀ q ∈ D.ids, ∀ k, draws q k → ∀ finger, (D.Found net.node q (addIdPowerOf2 q k) →
      finger = D.info (owner D.ids (addIdPowerOf2 q k))) →
        F q ((D.fingersAt net q).set k finger)

variable {F : NodeId → List NodeInfo → Prop} {keys : NodeId → NodeId → Prop}
  {draws : NodeId → ℕ → Prop}

/-- The background tasks keep the ring and the condition on its fingers. -/
theorem LeadsLookups.upkeep (hlead : D.LeadsLookups F keys draws) (h : D.LinkedRing net)
    (hfingers : ∀ i ∈ D.ids, F i (D.fingersAt net i)) (hq : q ∈ D.ids) {task : Upkeep}
    (htask : ∀ k, task = .fixFingers k → draws q k) :
    Returns (task.run (env reliable (depth + 1) (D.info q).address)) net fun _ net' =>
      D.LinkedRing net' ∧ KeepsPointers net net' ∧ ∀ i ∈ D.ids, F i (D.fingersAt net' i) := by
  refine (h.upkeep hq task).mono ?_
  rintro - net' ⟨h', hkeeps, hafter⟩
  refine ⟨h', hkeeps, fun i hi => ?_⟩
  rcases hafter i hi with ⟨-, hsame⟩ | ⟨k, finger, rfl, rfl, hset, hexact⟩
  · rw [hsame]
    exact hfingers i hi
  · rw [hset]
    exact hlead.refresh net h hfingers i hi k (htask k rfl) finger hexact

/-! ### Refreshed fingers -/

end Directory

end TaceChat
