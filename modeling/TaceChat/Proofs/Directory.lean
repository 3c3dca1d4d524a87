import Mathlib.Logic.Function.Iterate
import TaceChat.Proofs.KnownNodes

/-!
# Networks that run the nodes of a directory

A `Directory` is a finite set of ids with the node info of each id, at distinct addresses.
`Directory.Runs` says that a network runs the nodes of the directory: each one listens at its
address under its own info. `Directory.Routes` says besides that their successors and fingers are
infos of members, and `Directory.Serves` that they hold the infos of members only, in whatever
order.

`Directory.route` is the walk of `find_predecessor` as a function of ids, and
`findSuccessor_route` is the specification of `find_successor` in a network of this kind, for
every medium that answers the calls of the walk. The medium enters through a budget `B k s`: in
the state `s`, the next `k` routing calls are answered.
-/

set_option autoImplicit false

namespace TaceChat

/-- A finite set of node ids, and the info of the node with each id. -/
structure Directory where
  ids : Finset NodeId
  info : NodeId → NodeInfo
  info_id : ∀ i, (info i).id = i
  address_inj : ∀ i ∈ ids, ∀ j ∈ ids, (info i).address = (info j).address → i = j

/-- The two requests that a lookup sends. -/
inductive Routing : DhtMessage → Prop
  | getSuccessor : Routing .getSuccessor
  | closestPrecedingNode (id : NodeId) : Routing (.closestPrecedingNode id)

/-- `B k s` guarantees that the next `k` routing calls are answered from the state `s`. -/
structure Medium.Budget {φ : Type} (medium : Medium φ) (B : ℕ → φ → Prop) : Prop where
  answered : ∀ {k s m}, B (k + 1) s → Routing m → ∀ a, (medium s a m).1 = .answered
  next : ∀ {k s m}, B (k + 1) s → Routing m → ∀ a, B k (medium s a m).2
  mono : ∀ {k s}, B (k + 1) s → B k s

/-- A smaller budget. -/
theorem Medium.Budget.le {φ : Type} {medium : Medium φ} {B : ℕ → φ → Prop}
    (hB : medium.Budget B) {k l : ℕ} {s : φ} (hkl : k ≤ l) (h : B l s) : B k s := by
  induction l with
  | zero => exact (Nat.le_zero.mp hkl) ▸ h
  | succ l ih =>
    rcases Nat.eq_or_lt_of_le hkl with rfl | hlt
    · exact h
    · exact ih (Nat.le_of_lt_succ hlt) (hB.mono h)

/-- The reliable medium answers everything. -/
theorem reliable_budget : reliable.Budget fun _ _ => True where
  answered _ _ _ := rfl
  next _ _ _ := trivial
  mono _ := trivial

namespace Directory

variable (D : Directory)

/-- The info of a member. -/
def Known (x : NodeInfo) : Prop := ∃ i ∈ D.ids, x = D.info i

/-- The state of the node with an id. -/
def at' (nodes : String → ChordNode) (i : NodeId) : ChordNode := nodes (D.info i).address

/-- The successor of a node, by id. -/
def succ (nodes : String → ChordNode) (i : NodeId) : NodeId := (D.at' nodes i).successor.id

/-- The closest preceding finger of a node, by id. -/
def hop (nodes : String → ChordNode) (id i : NodeId) : NodeId :=
  ((D.at' nodes i).closestPrecedingNode id).id

/-- `id` lies between the node and its successor. -/
def OnTarget (nodes : String → ChordNode) (id i : NodeId) : Prop :=
  isBetween id i (D.succ nodes i) = true

/-- It can be computed whether an id is on target. -/
instance (nodes : String → ChordNode) (id i : NodeId) : Decidable (D.OnTarget nodes id i) :=
  inferInstanceAs (Decidable (isBetween id i (D.succ nodes i) = true))

/-- Where the walk of `find_predecessor` ends that starts at `i` and may make `retries` hops. -/
def route (nodes : String → ChordNode) (id : NodeId) : ℕ → NodeId → NodeId
  | 0, i => i
  | retries + 1, i =>
    if D.OnTarget nodes id i ∨ D.hop nodes id i = i then i
    else route nodes id retries (D.hop nodes id i)

/-- The network runs the nodes of the directory: each one listens under its info. -/
structure Runs {φ : Type} (net : Network φ) : Prop where
  info : ∀ i ∈ D.ids, (D.at' net.node i).info = D.info i
  listening : ∀ i ∈ D.ids, net.listening (D.info i).address = true

/-- The network runs the nodes of the directory, and they route to members only. -/
structure Routes {φ : Type} (net : Network φ) : Prop extends D.Runs net where
  successor : ∀ i ∈ D.ids, D.Known (D.at' net.node i).successor
  fingerTable : ∀ i ∈ D.ids, ∀ x ∈ (D.at' net.node i).fingerTable, D.Known x

/-- The network runs the nodes of the directory, and they hold infos of members only. -/
structure Serves {φ : Type} (net : Network φ) : Prop extends D.Runs net where
  reports : ∀ i ∈ D.ids, Reports D.Known (D.at' net.node i)

variable {D} {φ : Type} {medium : Medium φ} {depth : ℕ} {net : Network φ} {B : ℕ → φ → Prop}

/-- Distinct ids have distinct infos. -/
theorem info_inj {i j : NodeId} : D.info i = D.info j ↔ i = j := by
  refine ⟨fun h => ?_, congrArg D.info⟩
  rw [← D.info_id i, h, D.info_id]

/-- A known info is the one of its id. -/
theorem Known.eq_info {x : NodeInfo} (h : D.Known x) : x = D.info x.id := by
  obtain ⟨i, -, rfl⟩ := h
  rw [D.info_id]

/-- A known info names a member. -/
theorem Known.mem {x : NodeInfo} (h : D.Known x) : x.id ∈ D.ids := by
  obtain ⟨i, hi, rfl⟩ := h
  rw [D.info_id]
  exact hi

/-- The info of a member is known. -/
theorem known_info {i : NodeId} (hi : i ∈ D.ids) : D.Known (D.info i) := ⟨i, hi, rfl⟩

/-- Every member holds known infos. -/
theorem Serves.closed (hS : D.Serves net) : Network.Closed D.Known net := by
  rintro x ⟨i, hi, rfl⟩
  exact hS.reports i hi

/-- The same nodes serve. -/
theorem Serves.sameNodes {net' : Network φ} (hS : D.Serves net)
    (hs : Network.SameNodes net net') : D.Serves net' where
  info := by rw [hs.1]; exact hS.info
  listening := by rw [hs.2]; exact hS.listening
  reports := by rw [hs.1]; exact hS.reports

/-- A write to one member and a read of another. -/
theorem at'_setNode {i j : NodeId} (hi : i ∈ D.ids) (hj : j ∈ D.ids) (n : ChordNode) :
    D.at' (net.setNode (D.info i).address n).node j = if j = i then n else D.at' net.node j := by
  split
  · rename_i h
    rw [h, at', Network.setNode_node_self]
  · rename_i h
    exact Network.setNode_node_of_ne fun heq => h (D.address_inj j hj i hi heq)

/-- A member that is written with its own info. -/
theorem Runs.setNode (hrun : D.Runs net) {i : NodeId} (hi : i ∈ D.ids) {n : ChordNode}
    (hn : n.info = D.info i) : D.Runs (net.setNode (D.info i).address n) where
  info j hj := by
    rw [at'_setNode hi hj]
    split
    · rename_i h
      rw [hn, h]
    · exact hrun.info j hj
  listening := hrun.listening

/-- A write of known infos. -/
theorem Serves.setNode (hS : D.Serves net) {i : NodeId} (hi : i ∈ D.ids) {n : ChordNode}
    (hinfo : n.info = D.info i) (hn : Reports D.Known n) :
    D.Serves (net.setNode (D.info i).address n) := by
  refine ⟨hS.toRuns.setNode hi hinfo, fun j hj => ?_⟩
  rw [at'_setNode hi hj]
  split
  · exact hn
  · exact hS.reports j hj

/-- A network that serves routes to members. -/
theorem Serves.routes (hS : D.Serves net) : D.Routes net :=
  ⟨hS.toRuns, fun i hi => (hS.reports i hi).successor, fun i hi => (hS.reports i hi).fingerTable⟩

/-- The same nodes route to the same members. -/
theorem Routes.sameNodes {net' : Network φ} (hR : D.Routes net)
    (hs : Network.SameNodes net net') : D.Routes net' where
  info := by rw [hs.1]; exact hR.info
  listening := by rw [hs.2]; exact hR.listening
  successor := by rw [hs.1]; exact hR.successor
  fingerTable := by rw [hs.1]; exact hR.fingerTable

/-- A successor of a member is the info of a member. -/
theorem Routes.successor_eq (hR : D.Routes net) {i : NodeId} (hi : i ∈ D.ids) :
    (D.at' net.node i).successor = D.info (D.succ net.node i) :=
  (hR.successor i hi).eq_info

/-- The successor of a member is a member. -/
theorem Routes.succ_mem (hR : D.Routes net) {i : NodeId} (hi : i ∈ D.ids) :
    D.succ net.node i ∈ D.ids :=
  (hR.successor i hi).mem

/-- So is the closest preceding finger of a member. -/
theorem Routes.hop_known (hR : D.Routes net) (id : NodeId) {i : NodeId} (hi : i ∈ D.ids) :
    D.Known ((D.at' net.node i).closestPrecedingNode id) := by
  rcases (D.at' net.node i).closestPrecedingNode_mem id with hself | hfinger
  · rw [hself, hR.info i hi]
    exact known_info hi
  · exact hR.fingerTable i hi _ hfinger

/-- The closest preceding node is known. -/
theorem Routes.hop_eq (hR : D.Routes net) (id : NodeId) {i : NodeId} (hi : i ∈ D.ids) :
    (D.at' net.node i).closestPrecedingNode id = D.info (D.hop net.node id i) :=
  (hR.hop_known id hi).eq_info

/-- A hop leads from member to member. -/
theorem Routes.hop_mem (hR : D.Routes net) (id : NodeId) {i : NodeId} (hi : i ∈ D.ids) :
    D.hop net.node id i ∈ D.ids :=
  (hR.hop_known id hi).mem

/-- The walk stays in the directory. -/
theorem Routes.route_mem (hR : D.Routes net) (id : NodeId) (retries : ℕ) {i : NodeId}
    (hi : i ∈ D.ids) : D.route net.node id retries i ∈ D.ids := by
  induction retries generalizing i with
  | zero => exact hi
  | succ retries ih =>
    unfold route
    split
    · exact hi
    · exact ih (hR.hop_mem id hi)

/-! ### The steps of a lookup -/

open Network

/-- The info of a member is the node's own info exactly for the node's own id. -/
theorem Runs.info_id_eq (hS : D.Runs net) {q i : NodeId} (hq : q ∈ D.ids) :
    (D.info i).id = (net.node (D.info q).address).info.id ↔ i = q := by
  have hinfo : (net.node (D.info q).address).info = D.info q := hS.info q hq
  rw [hinfo, D.info_id, D.info_id]

/-- A hop of the walk. It costs one call, unless the walk is at the querying node. -/
theorem nextNode_hop (hB : medium.Budget B) (hR : D.Routes net) {q i id : NodeId} {c : ℕ}
    (hq : q ∈ D.ids) (hi : i ∈ D.ids) (hb : B (c + if i = q then 0 else 1) net.medium) :
    Returns (nextNode (env medium (depth + 1) (D.info q).address) id (D.info i)) net
      fun r net' => r = some (D.info (D.hop net.node id i)) ∧ SameNodes net net' ∧
        B c net'.medium := by
  simp only [nextNode, returns_bind, returns_safeLock, returns_ite, env_node, env_callNode,
    hR.info_id_eq hq]
  refine ⟨fun hiq => ?_, fun hiq => ?_⟩
  · subst hiq
    rw [if_pos rfl] at hb
    exact returns_pure.mpr ⟨congrArg some (hR.hop_eq id hq), .refl net, hb⟩
  · rw [if_neg hiq] at hb
    rw [call_read_answered rfl (hB.answered hb (.closestPrecedingNode id) _)
      (hR.listening i hi)]
    refine returns_pure.mpr ⟨congrArg some (hR.hop_eq id hi), ⟨rfl, rfl⟩, ?_⟩
    exact hB.next hb (.closestPrecedingNode id) _

/-- The successor of a node of the walk, at the cost of one call unless it is the querying
node. -/
theorem successorOf_succ (hB : medium.Budget B) (hR : D.Routes net) {q i : NodeId} {c : ℕ}
    (hq : q ∈ D.ids) (hi : i ∈ D.ids) (hb : B (c + if i = q then 0 else 1) net.medium) :
    Returns (successorOf (env medium (depth + 1) (D.info q).address) (D.info i)) net
      fun r net' => r = some (D.at' net.node i).successor ∧ SameNodes net net' ∧
        B c net'.medium := by
  simp only [successorOf, returns_bind, returns_safeLock, returns_ite, env_node, env_callNode,
    hR.info_id_eq hq]
  refine ⟨fun hiq => ?_, fun hiq => ?_⟩
  · subst hiq
    rw [if_pos rfl] at hb
    exact returns_pure.mpr ⟨rfl, .refl net, hb⟩
  · rw [if_neg hiq] at hb
    rw [call_read_answered rfl (hB.answered hb .getSuccessor _) (hR.listening i hi)]
    exact returns_pure.mpr ⟨rfl, ⟨rfl, rfl⟩, hB.next hb .getSuccessor _⟩

/-- The loop of `find_predecessor` ends where `route` says. `h` bounds the hops it makes: all
that are left, or as many as lead to a node on target. -/
theorem findPredecessorLoop_route (hB : medium.Budget B) {q id : NodeId} (hq : q ∈ D.ids)
    (retries : ℕ) :
    ∀ {net : Network φ} {i : NodeId} {h c : ℕ}, D.Routes net → i ∈ D.ids → h ≤ retries →
      (h = retries ∨ D.OnTarget net.node id ((D.hop net.node id)^[h] i)) →
      B (2 * h - (if i = q then 1 else 0) + c) net.medium →
      Returns (findPredecessorLoop (env medium (depth + 1) (D.info q).address) id retries
          (D.info i) (D.at' net.node i).successor) net
        fun r net' => r = D.info (D.route net.node id retries i) ∧ SameNodes net net' ∧
          B c net'.medium := by
  induction retries with
  | zero =>
    intro net i h c hR hi hle hstop hb
    obtain rfl : h = 0 := Nat.le_zero.mp hle
    have hb : B c net.medium := hB.le (by omega) hb
    unfold findPredecessorLoop
    simp only [returns_ite, returns_pure]
    exact ⟨fun _ => ⟨rfl, .refl net, hb⟩, fun _ => ⟨rfl, .refl net, hb⟩⟩
  | succ retries ih =>
    intro net i h c hR hi hle hstop hb
    unfold findPredecessorLoop
    simp only [returns_ite, D.info_id]
    have htarget : isBetween id i (D.at' net.node i).successor.id = true ↔
        D.OnTarget net.node id i := Iff.rfl
    rw [htarget, route]
    refine ⟨fun hon => ?_, fun hoff => ?_⟩
    · rw [if_pos (Or.inl hon)]
      exact returns_pure.mpr ⟨rfl, .refl net, hB.le (by omega) hb⟩
    · -- The walk is not on target yet, so there is a hop left to make.
      obtain ⟨h, rfl⟩ : ∃ h', h = h' + 1 := by
        cases h with
        | zero => exact absurd (hstop.resolve_left (by omega)) hoff
        | succ h => exact ⟨h, rfl⟩
      have hhop := hR.hop_mem id hi
      have hb₁ : B ((2 * h + (if D.hop net.node id i = q then 0 else 1) + c) +
          if i = q then 0 else 1) net.medium := hB.le (by split <;> split <;> omega) hb
      refine (nextNode_hop hB hR hq hi hb₁).bind ?_
      rintro next net₁ ⟨rfl, h₁, hb₁⟩
      simp only [returns_ite, D.info_id]
      refine ⟨fun hstuck => ?_, fun hmove => ?_⟩
      · rw [if_pos (Or.inr hstuck)]
        exact returns_pure.mpr ⟨rfl, h₁, hB.le (by omega) hb₁⟩
      · rw [if_neg (by simp [hoff, hmove])]
        have hR₁ := hR.sameNodes h₁
        have hb₂ : B ((2 * h + c) + if D.hop net.node id i = q then 0 else 1) net₁.medium :=
          hB.le (by omega) hb₁
        refine (successorOf_succ hB hR₁ hq hhop hb₂).bind ?_
        rintro succ net₂ ⟨rfl, h₂, hb₂⟩
        have h₁₂ := h₁.trans h₂
        have hstop' : h = retries ∨ D.OnTarget net₂.node id
            ((D.hop net₂.node id)^[h] (D.hop net.node id i)) := by
          rw [h₁₂.1, ← Function.iterate_succ_apply]
          exact hstop.imp_left Nat.succ.inj
        have hrec := ih (hR₁.sameNodes h₂) hhop (Nat.le_of_succ_le_succ hle) hstop'
          (hB.le (by split <;> omega) hb₂ : B (2 * h -
            (if D.hop net.node id i = q then 1 else 0) + c) net₂.medium)
        rw [h₁₂.1] at hrec
        rw [h₁.1]
        refine hrec.mono ?_
        rintro r net' ⟨rfl, h₃, hb₃⟩
        exact ⟨rfl, h₁₂.trans h₃, hb₃⟩

/-- `find_successor` returns the successor of the node where the walk ends. It makes at most
`2 * h` calls when the walk needs `h` hops. -/
theorem findSuccessor_route (hB : medium.Budget B) (hR : D.Routes net) {q id : NodeId}
    (hq : q ∈ D.ids) {h c : ℕ} (hle : h ≤ maxRetries)
    (hstop : h = maxRetries ∨ D.OnTarget net.node id ((D.hop net.node id)^[h] q))
    (hb : B (2 * h + c) net.medium) :
    Returns (findSuccessor (env medium (depth + 1) (D.info q).address) id) net
      fun r net' => r = D.info (D.succ net.node (D.route net.node id maxRetries q)) ∧
        SameNodes net net' ∧ B c net'.medium := by
  have hroute := hR.route_mem id maxRetries hq
  -- Only a walk that has left the querying node needs a last call.
  have hb' : B (2 * h - (if q = q then 1 else 0) +
      (c + if D.route net.node id maxRetries q = q then 0 else 1)) net.medium := by
    refine hB.le ?_ hb
    rw [if_pos rfl]
    cases h with
    | zero =>
      have hon : D.OnTarget net.node id q := hstop.resolve_left (by simp [maxRetries])
      have : D.route net.node id maxRetries q = q := by simp [maxRetries, route, hon]
      simp [this]
    | succ h => split <;> omega
  have hself : (net.node (D.info q).address).info = D.info q := hR.info q hq
  simp only [findSuccessor, findPredecessor, returns_bind, returns_safeLock, env_node, hself]
  refine (findPredecessorLoop_route hB hq maxRetries hR hq hle hstop hb').mono ?_
  rintro _ net₁ ⟨rfl, h₁, hb₁⟩
  have hR₁ := hR.sameNodes h₁
  simp only [returns_bind, returns_ite, env_callNode, hR₁.info_id_eq hq]
  refine ⟨fun heq => ?_, fun hne => ?_⟩
  · rw [if_pos heq] at hb₁
    rw [returns_pure, heq, h₁.1]
    exact ⟨hR.successor_eq hq, h₁, hb₁⟩
  · rw [if_neg hne] at hb₁
    rw [call_read_answered rfl (hB.answered hb₁ .getSuccessor _) (hR₁.listening _ hroute)]
    refine returns_pure.mpr ⟨?_, h₁.trans ⟨rfl, rfl⟩, hB.next hb₁ .getSuccessor _⟩
    rw [h₁.1]
    exact hR.successor_eq hroute

/-- A walk that comes on target stays there: the rest of its hops are not made. -/
theorem route_of_onTarget {nodes : String → ChordNode} {id : NodeId} :
    ∀ {retries : ℕ} {i : NodeId}, (∃ k ≤ retries, D.OnTarget nodes id ((D.hop nodes id)^[k] i)) →
      D.OnTarget nodes id (D.route nodes id retries i) := by
  intro retries
  induction retries with
  | zero =>
    rintro i ⟨k, hk, hon⟩
    obtain rfl : k = 0 := Nat.le_zero.mp hk
    exact hon
  | succ retries ih =>
    rintro i ⟨k, hk, hon⟩
    unfold route
    split
    · rename_i hstop
      rcases hstop with hstop | hstuck
      · exact hstop
      · -- A stuck walk has nowhere else to come on target.
        rwa [Function.iterate_fixed hstuck] at hon
    · rename_i hgo
      cases k with
      | zero => exact absurd (Or.inl hon) hgo
      | succ k => exact ih ⟨k, Nat.le_of_succ_le_succ hk, hon⟩

/-- The node where the walk ends is one of the nodes it visits. -/
theorem route_eq_iterate {nodes : String → ChordNode} {id : NodeId} :
    ∀ {retries : ℕ} {i : NodeId}, ∃ k ≤ retries,
      D.route nodes id retries i = (D.hop nodes id)^[k] i := by
  intro retries
  induction retries with
  | zero => exact fun {i} => ⟨0, Nat.le_refl _, rfl⟩
  | succ retries ih =>
    intro i
    unfold route
    split
    · exact ⟨0, Nat.zero_le _, rfl⟩
    · obtain ⟨k, hk, heq⟩ := ih (i := D.hop nodes id i)
      exact ⟨k + 1, Nat.succ_le_succ hk, heq⟩

/-- A walk that never comes on target moves until it is stuck or has made all its hops. -/
theorem route_of_offTarget {nodes : String → ChordNode} {id : NodeId} :
    ∀ {retries : ℕ} {i : NodeId}, (∀ k ≤ retries, ¬D.OnTarget nodes id ((D.hop nodes id)^[k] i)) →
      ∃ k ≤ retries, (∀ j < k, D.hop nodes id ((D.hop nodes id)^[j] i) ≠ (D.hop nodes id)^[j] i) ∧
        (k = retries ∨ D.hop nodes id ((D.hop nodes id)^[k] i) = (D.hop nodes id)^[k] i) ∧
        D.route nodes id retries i = (D.hop nodes id)^[k] i := by
  intro retries
  induction retries with
  | zero =>
    exact fun _ =>
      ⟨0, Nat.le_refl 0, fun j hj => absurd hj (Nat.not_lt_zero j), Or.inl rfl, rfl⟩
  | succ retries ih =>
    intro i hoff
    unfold route
    by_cases hstuck : D.hop nodes id i = i
    · rw [if_pos (Or.inr hstuck)]
      exact ⟨0, Nat.zero_le _, fun j hj => absurd hj (Nat.not_lt_zero j), Or.inr hstuck, rfl⟩
    · have hstart : ¬D.OnTarget nodes id i := hoff 0 (Nat.zero_le _)
      rw [if_neg (by simp [hstart, hstuck])]
      obtain ⟨k, hk, hmoves, hend, heq⟩ := ih (i := D.hop nodes id i) fun k hk =>
        hoff (k + 1) (Nat.succ_le_succ hk)
      refine ⟨k + 1, Nat.succ_le_succ hk, fun j hj => ?_, hend.imp_left (congrArg Nat.succ), heq⟩
      cases j with
      | zero => exact hstuck
      | succ j => exact hmoves j (Nat.lt_of_succ_lt_succ hj)

end Directory

end TaceChat
