import TaceChat.Model.Activities
import TaceChat.Proofs.HandOff
import TaceChat.Proofs.Simulation

/-!
# Networks built by their nodes

A `Directory.Chronicle` is a sequence of activities that starts with the founder alone, in which a
node joins once, through a node of the ring, and only nodes of the ring have background tasks and
serve requests.

`Directory.Mirrors` relates a network to a state of the interleaved steps: the pointers are the
same, and the successor lists and fingers, which the steps do not have, hold nodes of the ring only.
Each activity runs to its end and keeps it (`Mirrors.join`, `Mirrors.upkeep`), so every chronicle
does (`Mirrors.chronicle`). `chronicle_mirrors_steps` starts from a network that has just been
founded.
-/

set_option autoImplicit false

namespace TaceChat

open IdCircle Network

/-- The successor list and the fingers of a node hold infos with `K`. -/
structure ChordNode.Tables (K : NodeInfo → Prop) (n : ChordNode) : Prop where
  successorList : ∀ x ∈ n.successorList, K x
  fingerTable : ∀ x ∈ n.fingerTable, K x

/-- A larger set of infos. -/
theorem ChordNode.Tables.mono {K K' : NodeInfo → Prop} {n : ChordNode} (h : n.Tables K)
    (hK : ∀ x, K x → K' x) : n.Tables K' :=
  ⟨fun x hx => hK x (h.successorList x hx), fun x hx => hK x (h.fingerTable x hx)⟩

/-! ### What the activities do to the tables -/

namespace Network

variable {a : String} {net : Network Unit} {depth : ℕ} {K : NodeInfo → Prop}

/-- The networks have the same fingers and successor lists. -/
def SameTables (net net' : Network Unit) : Prop :=
  ∀ b, (net'.node b).fingerTable = (net.node b).fingerTable ∧
    (net'.node b).successorList = (net.node b).successorList

/-- One change after another. -/
theorem SameTables.trans {net' net'' : Network Unit} (h : SameTables net net')
    (h' : SameTables net' net'') : SameTables net net'' :=
  fun b => ⟨(h' b).1.trans (h b).1, (h' b).2.trans (h b).2⟩

/-- A node that is written with its own tables. -/
theorem SameTables.setNode {n : ChordNode} (hfinger : n.fingerTable = (net.node a).fingerTable)
    (hlist : n.successorList = (net.node a).successorList) : SameTables net (net.setNode a n) := by
  intro b
  by_cases hb : b = a
  · rw [hb, setNode_node_self]
    exact ⟨hfinger, hlist⟩
  · rw [setNode_node_of_ne hb]
    exact ⟨rfl, rfl⟩

/-- Data is in no table. -/
theorem ChangesData.sameTables {P : NodeId → Prop} {net' : Network Unit}
    (h : ChangesData P net net') : SameTables net net' := by
  intro b
  obtain ⟨d, hd, -⟩ := h.2 b
  rw [hd]
  exact ⟨rfl, rfl⟩

/-- The networks differ in successors and predecessors only. -/
def Relinks (net net' : Network Unit) : Prop :=
  ∀ b, ∃ successor predecessor, net'.node b =
    { net.node b with successor := successor, predecessor := predecessor }

/-- One change after another. -/
theorem Relinks.trans {net' net'' : Network Unit} (h : Relinks net net')
    (h' : Relinks net' net'') : Relinks net net'' := by
  intro b
  obtain ⟨_, _, hb⟩ := h b
  obtain ⟨successor, predecessor, hb'⟩ := h' b
  exact ⟨successor, predecessor, by rw [hb', hb]⟩

/-- A node that is written with other pointers. -/
theorem Relinks.setNode {n : ChordNode} (h : ∃ successor predecessor, n =
    { net.node a with successor := successor, predecessor := predecessor }) :
    Relinks net (net.setNode a n) := by
  intro b
  by_cases hb : b = a
  · rw [hb, setNode_node_self]
    exact h
  · rw [setNode_node_of_ne hb]
    exact ⟨_, _, rfl⟩

/-- Pointers are in no table. -/
theorem Relinks.sameTables {net' : Network Unit} (h : Relinks net net') : SameTables net net' := by
  intro b
  obtain ⟨_, _, hb⟩ := h b
  rw [hb]
  exact ⟨rfl, rfl⟩

/-- The data stays where it is. -/
theorem Relinks.data {net' : Network Unit} (h : Relinks net net') (b : String) :
    (net'.node b).data = (net.node b).data := by
  obtain ⟨_, _, hb⟩ := h b
  rw [hb]

/-- The answer that a stabilization adopts is a successor. -/
theorem answered_relinks (a : String) (net : Network Unit) : Relinks net (net.answered a) := by
  refine .setNode ?_
  cases (net.node (net.node a).successor.address).predecessor with
  | none => exact ⟨_, _, rfl⟩
  | some x =>
    simp only [ChordNode.afterAnswer, ChordNode.adoptSuccessor]
    split <;> exact ⟨_, _, rfl⟩

/-- A notification sets a predecessor. -/
theorem notified_relinks (a : String) (net : Network Unit) : Relinks net (net.notified a) := by
  rw [notified_eq]
  refine .setNode ?_
  rcases Directory.handleNotify_cases (net.node (net.node a).successor.address)
    (net.node a).info with h | h <;> rw [h] <;> exact ⟨_, _, rfl⟩

/-- A stabilization without its list sets pointers only. -/
theorem stabilized_relinks (a : String) (net : Network Unit) :
    Relinks net (net.stabilized a) := by
  unfold stabilized
  split
  · exact .setNode ⟨_, _, rfl⟩
  · exact (answered_relinks a net).trans (notified_relinks a _)

/-- A change of the data leaves the infos that the nodes hold. -/
theorem Closed.changesData {P : NodeId → Prop} {net' : Network Unit} (h : Closed K net)
    (hdata : ChangesData P net net') : Closed K net' := by
  intro x hx
  obtain ⟨d, hd, -⟩ := hdata.2 x.address
  rw [hd]
  obtain ⟨hinfo, hsucc, hlist, hpred, hfinger⟩ := h x hx
  exact ⟨hinfo, hsucc, hlist, hpred, hfinger⟩

/-- The list is filled from the successor and from what the walk has found. -/
theorem fillSuccessorList_known {x : NodeInfo} {rest : List NodeInfo} (hx : K x)
    (hrest : ∀ y ∈ rest, K y) : ∀ y ∈ fillSuccessorList x rest, K y := by
  intro y hy
  simp only [fillSuccessorList, List.mem_append, List.mem_cons, List.mem_replicate] at hy
  rcases hy with (rfl | hy) | ⟨-, rfl⟩
  · exact hx
  · exact hrest y hy
  · rcases List.mem_cons.mp (List.getLast_mem (List.cons_ne_nil x rest)) with heq | hmem
    · rw [heq]
      exact hx
    · exact hrest _ hmem

/-- A stabilization writes the successor list of its node, and no other list and no finger. -/
theorem stabilize_tables {x : NodeInfo} (hx : K x) (hK : Closed K (net.stabilized x.address))
    (hl : (net.node x.address).info.id ≠ (net.node x.address).successor.id →
      net.listening (net.node x.address).successor.address = true ∧
        net.listening ((net.answered x.address).node x.address).successor.address = true) :
    Returns (stabilize (env reliable (depth + 3) x.address)) net fun _ net' =>
      ∀ b, (net'.node b).fingerTable = (net.node b).fingerTable ∧
        ((net'.node b).successorList = (net.node b).successorList ∨
          b = x.address ∧ ∀ y ∈ (net'.node b).successorList, K y) := by
  by_cases hself : (net.node x.address).info.id = (net.node x.address).successor.id
  · rw [returns_stabilize_alone hself]
    have hsame : SameTables net (net.setNode x.address { net.node x.address with
      predecessor := none }) := .setNode rfl rfl
    exact fun b => ⟨(hsame b).1, Or.inl (hsame b).2⟩
  · obtain ⟨hl, hl'⟩ := hl hself
    rw [stabilized, if_neg hself] at hK
    rw [returns_stabilize_answered hself hl]
    simp only [notifyAndRefresh, returns_bind, returns_discard]
    have hsame := (stabilized_relinks x.address net).sameTables
    rw [stabilized, if_neg hself] at hsame
    have hl₁ : (net.answered x.address).listening
        ((net.answered x.address).node x.address).successor.address = true := hl'
    refine (call_notify_changesData hl₁).mono ?_
    rintro - net₁ hdata
    have hK₁ : Closed K net₁ := hK.changesData hdata
    have hsame₁ : SameTables net net₁ := hsame.trans hdata.sameTables
    refine (updateSuccessorList_finds hK₁ (hK₁ x hx)).mono ?_
    rintro - net₂ ⟨rest, -, hrest, hnodes⟩ b
    rw [hnodes.1, withList]
    by_cases hb : b = x.address
    · rw [hb, setNode_node_self]
      exact ⟨(hsame₁ _).1, Or.inr ⟨rfl, fillSuccessorList_known (hK₁ x hx).successor hrest⟩⟩
    · rw [setNode_node_of_ne hb]
      exact ⟨(hsame₁ b).1, Or.inl (hsame₁ b).2⟩

end Network

/-! ### The relation -/

namespace Directory

section
variable (D : Directory) (R : Finset NodeId)

/-- The info of a node of the ring. -/
def InRing (x : NodeInfo) : Prop := ∃ i ∈ R, x = D.info i

/-- The network has the pointers of a state of the interleaved steps in which no activity is under
way, and its tables hold nodes of the ring. A node that has not joined knows itself only. -/
structure Mirrors (f : NodeId) (s : RingState) (net : Network Unit) : Prop extends
    D.Settling R f s where
  runs : D.Runs net
  agrees : s.Agrees net
  idle : ∀ i ∈ R, s.task (D.info i).address = .idle
  fresh : ∀ i ∈ D.ids, i ∉ R → s.task (D.info i).address = .fresh
  tables : ∀ i ∈ D.ids, (D.at' net.node i).Tables fun x => D.InRing R x ∨ x = D.info i

end

variable {D : Directory} {R : Finset NodeId} {f i j : NodeId} {s r : RingState}
  {net net' : Network Unit} {depth : ℕ}

/-- A ring that has grown. -/
theorem InRing.mono {R' : Finset NodeId} (h : R ⊆ R') {x : NodeInfo} (hx : D.InRing R x) :
    D.InRing R' x := by
  obtain ⟨i, hi, rfl⟩ := hx
  exact ⟨i, h hi, rfl⟩

/-- The ring is part of the directory. -/
theorem Mirrors.mem_ids (h : D.Mirrors R f s net) (hi : i ∈ R) : i ∈ D.ids :=
  ((h.members i).mpr hi).1

/-- A node of the ring reports nodes of the ring: its pointers because of the ring invariant, its
tables because of what the activities write. -/
theorem reports_of_settling (h : D.Settling R f s) (hrun : D.Runs net) (hagrees : s.Agrees net)
    (hi : i ∈ R) (htables : (D.at' net.node i).Tables fun x => D.InRing R x ∨ x = D.info i) :
    Reports (D.InRing R) (D.at' net.node i) := by
  have hm : D.Member s i := (h.members i).mpr hi
  have hnode := hagrees (D.info i).address
  have htable : ∀ x, D.InRing R x ∨ x = D.info i → D.InRing R x := by
    rintro x (hx | rfl)
    · exact hx
    · exact ⟨i, hi, rfl⟩
  refine ⟨?_, ?_, fun x hx => htable x (htables.successorList x hx), fun x hx => ?_,
    fun x hx => htable x (htables.fingerTable x hx)⟩
  · rw [hrun.info i hm.1]
    exact ⟨i, hi, rfl⟩
  · refine ⟨_, h.succ_mem hi, ?_⟩
    exact hnode.successor.symm.trans (h.successor_eq hm)
  · obtain ⟨j, hj, rfl, -⟩ := h.predecessor i hm.1 x (hnode.predecessor.trans hx)
    exact ⟨j, (h.members j).mp hj, rfl⟩

/-- A node of the ring holds infos of nodes of the ring. -/
theorem Mirrors.reports (h : D.Mirrors R f s net) (hi : i ∈ R) :
    Reports (D.InRing R) (D.at' net.node i) :=
  reports_of_settling h.toSettling h.runs h.agrees hi (h.tables i (h.mem_ids hi))

/-- So do all the nodes that it can ask. -/
theorem Mirrors.closed (h : D.Mirrors R f s net) : Closed (D.InRing R) net := by
  rintro x ⟨i, hi, rfl⟩
  exact h.reports hi

/-! ### A node that has run an activity to its end -/

/-- Only the task at the address has changed, and it is idle. -/
theorem RestsAfter.task (h : RestsAfter (D.info i).address s r) (hi : i ∈ D.ids) (hj : j ∈ D.ids) :
    r.task (D.info j).address = if j = i then .idle else s.task (D.info j).address := by
  rw [h]
  split
  · rename_i heq
    rw [heq, Function.update_self]
  · rename_i hne
    exact Function.update_of_ne (fun heq => hne (D.address_inj j hj i hi heq)) _ _

/-- The ring after an activity of a node: the node belongs to it. -/
theorem RestsAfter.settling (h : RestsAfter (D.info i).address s r) (hs : D.Settling R f s)
    (hi : i ∈ D.ids) (hreach : s.Reachable r) : D.Settling (insert i R) f r := by
  refine ⟨hs.toSettlingInvariant.reachable hreach, fun j => ?_⟩
  rw [Finset.mem_insert, ← hs.members j]
  constructor
  · rintro ⟨hj, hjoined⟩
    rw [h.task hi hj] at hjoined
    by_cases hji : j = i
    · exact Or.inl hji
    · rw [if_neg hji] at hjoined
      exact Or.inr ⟨hj, hjoined⟩
  · rintro (rfl | hj)
    · refine ⟨hi, ?_⟩
      rw [h.task hi hi, if_pos rfl]
      trivial
    · refine ⟨hj.1, ?_⟩
      rw [h.task hi hj.1]
      split
      · trivial
      · exact hj.2

/-- The network mirrors the steps after an activity, once the node that ran it rests and the tables
hold nodes of the ring. -/
theorem Mirrors.after (h : D.Mirrors R f s net) (hi : i ∈ D.ids)
    (hrest : RestsAfter (D.info i).address s r) (hreach : s.Reachable r) (hrun : D.Runs net')
    (hagrees : r.Agrees net') (htables : ∀ j ∈ D.ids,
      (D.at' net'.node j).Tables fun x => D.InRing (insert i R) x ∨ x = D.info j) :
    D.Mirrors (insert i R) f r net' := by
  refine ⟨hrest.settling h.toSettling hi hreach, hrun, hagrees, fun j hj => ?_, fun j hj hjR => ?_,
    htables⟩
  · by_cases hji : j = i
    · rw [hji, hrest.task hi hi, if_pos rfl]
    · have hjR := Finset.mem_of_mem_insert_of_ne hj hji
      rw [hrest.task hi (h.mem_ids hjR), if_neg hji]
      exact h.idle j hjR
  · rw [Finset.mem_insert, not_or] at hjR
    rw [hrest.task hi hj, if_neg hjR.1]
    exact h.fresh j hj hjR.2

/-! ### The background tasks -/

/-- A stabilization is a run of steps in which the node ends one. -/
theorem Mirrors.stabilize (h : D.Mirrors R f s net) (hi : i ∈ R) :
    Returns (TaceChat.stabilize (env reliable (depth + 3) (D.info i).address)) net fun _ net' =>
      ∃ ended r, s.Run ended r ∧ (D.info i).address ∈ ended ∧ D.Mirrors R f r net' := by
  have hids := h.mem_ids hi
  have hm : D.Member s i := (h.members i).mpr hi
  have hinsert : insert i R = R := Finset.insert_eq_of_mem hi
  obtain ⟨ended, r, hsr, hmem, hrest, hr⟩ := exists_run (h.idle i hi) h.agrees
  have hreach := run_reachable hsr
  have hsettle : D.Settling R f r := hinsert ▸ hrest.settling h.toSettling hids hreach
  obtain ⟨hlisten, hinfo⟩ := stabilized_info (D.info i).address net
  have hruns : D.Runs (net.stabilized (D.info i).address) :=
    ⟨fun j hj => (hinfo _).trans (h.runs.info j hj), fun j hj => by
      rw [hlisten]
      exact h.runs.listening j hj⟩
  have htables : ∀ j ∈ D.ids, (D.at' (net.stabilized (D.info i).address).node j).Tables
      fun x => D.InRing R x ∨ x = D.info j := by
    intro j hj
    obtain ⟨hfinger, hlist⟩ := (stabilized_relinks (D.info i).address net).sameTables
      (D.info j).address
    have hold := h.tables j hj
    exact ⟨fun x hx => hold.successorList x (hlist ▸ hx), fun x hx =>
      hold.fingerTable x (hfinger ▸ hx)⟩
  have hclosed : Closed (D.InRing R) (net.stabilized (D.info i).address) := by
    rintro x ⟨j, hj, rfl⟩
    exact reports_of_settling hsettle hruns hr hj (htables j (h.mem_ids hj))
  have hlisten := h.stabilize_listening h.runs hm (h.idle i hi) h.agrees
  refine ((h.returns_stabilize h.runs hm (h.idle i hi) h.agrees).and
    (stabilize_tables (x := D.info i) ⟨i, hi, rfl⟩ hclosed hlisten)).mono ?_
  rintro - net' ⟨hsame, hnew⟩
  refine ⟨ended, r, hsr, hmem, ?_⟩
  have hmirrors : D.Mirrors (insert i R) f r net' := by
    refine h.after hids hrest hreach (hsame.runs hruns) (hr.samePointers hsame) fun j hj => ?_
    obtain ⟨hfinger, hlist⟩ := hnew (D.info j).address
    rw [hinsert]
    have hold := h.tables j hj
    refine ⟨fun x hx => ?_, fun x hx => hold.fingerTable x (hfinger ▸ hx)⟩
    rcases hlist with hlist | ⟨-, hlist⟩
    · exact hold.successorList x (hlist ▸ hx)
    · exact Or.inl (hlist x hx)
  exact hinsert ▸ hmirrors

/-- A finger is written with a node of the ring, and no step is needed. -/
theorem Mirrors.fixFingers (h : D.Mirrors R f s net) (hi : i ∈ R) (k : ℕ) :
    Returns (TaceChat.fixFingers (env reliable (depth + 1) (D.info i).address) k) net
      fun _ net' => D.Mirrors R f s net' := by
  simp only [TaceChat.fixFingers, returns_bind, returns_safeLock, env_node]
  refine (findSuccessor_finds h.closed (h.reports hi) _).mono ?_
  rintro finger net' ⟨hsame, hfinger⟩
  rw [hsame.eq, returns_safeUpdate]
  have hnet := h.agrees (D.info i).address
  refine { h with runs := ?_, agrees := ?_, tables := fun j hj => ?_ }
  · exact h.runs.setNode (h.mem_ids hi) (h.runs.info i (h.mem_ids hi))
  · exact h.agrees.samePointers (.setNode rfl rfl rfl)
  · rw [env_setNode, at'_setNode (h.mem_ids hi) hj]
    split
    · rename_i hji
      subst hji
      refine ⟨(h.tables j hj).successorList, fun x hx => ?_⟩
      rcases List.mem_or_eq_of_mem_set hx with hold | rfl
      · exact (h.tables j hj).fingerTable x hold
      · exact Or.inl hfinger
    · exact h.tables j hj

/-- Every predecessor answers its ping, so nothing is cleared. -/
theorem Mirrors.checkPredecessor (h : D.Mirrors R f s net) (hi : i ∈ R) :
    Returns (TaceChat.checkPredecessor (env reliable (depth + 1) (D.info i).address)) net
      fun _ net' => net' = net := by
  simp only [TaceChat.checkPredecessor, returns_bind, returns_safeLock, env_node, env_callNode]
  cases hpred : (net.node (D.info i).address).predecessor with
  | none => exact returns_pure.mpr rfl
  | some p =>
    -- The predecessor is a node of the ring, and answers.
    obtain ⟨j, hj, rfl⟩ := (h.reports hi).predecessor p hpred
    rw [returns_bind, call_read_answered rfl rfl (h.runs.listening j (h.mem_ids hj)), returns_pure]

/-! ### Joins -/

/-- The nodes of the ring, as a directory of their own. -/
def restrict (D : Directory) (hR : R ⊆ D.ids) : Directory where
  ids := R
  info := D.info
  info_id := D.info_id
  address_inj i hi j hj := D.address_inj i (hR hi) j (hR hj)

/-- The nodes of the ring serve as a network of their own. -/
theorem Mirrors.serves (h : D.Mirrors R f s net) :
    (D.restrict fun _ hi => h.mem_ids hi).Serves net where
  info i hi := h.runs.info i (h.mem_ids hi)
  listening i hi := h.runs.listening i (h.mem_ids hi)
  reports _ hi := h.reports hi

/-- A node of the ring names a node of the ring to a node that joins. -/
theorem Mirrors.findJoinSuccessor {b : NodeId} (h : D.Mirrors R f s net) (hi : i ∈ D.ids)
    (hiR : i ∉ R) (hb : b ∈ R) :
    Returns (TaceChat.findJoinSuccessor (env reliable (depth + 2) (D.info i).address)
      (D.info b).address) net fun r _ => ∃ j ∈ R, r = some (D.info j) := by
  have hself : (net.node (D.info i).address).info.id = i := by
    rw [show (net.node (D.info i).address).info = D.info i from h.runs.info i hi, D.info_id]
  simp only [TaceChat.findJoinSuccessor, returns_bind, returns_safeLock, env_node, env_callNode,
    hself]
  rw [returns_call_reliable (h.runs.listening b (h.mem_ids hb))]
  simp only [handleConnection.eq_def, returns_bind]
  refine (findSuccessor_route (D := D.restrict fun _ hi => h.mem_ids hi) (c := 0) reliable_budget
    h.serves.routes hb (Nat.le_refl _) (Or.inl rfl) trivial).mono ?_
  rintro r net' ⟨rfl, -, -⟩
  have hj := h.serves.routes.succ_mem (h.serves.routes.route_mem i maxRetries hb)
  refine returns_pure.mpr (returns_ite.mpr ⟨fun heq => ?_, fun _ => returns_pure.mpr ⟨_, hj, rfl⟩⟩)
  -- The named node has joined, so it is another one.
  rw [(D.restrict fun _ hi => h.mem_ids hi).info_id] at heq
  exact absurd (heq ▸ hj) hiR

/-- The join of a node that finds its successor moves data besides. -/
theorem join_changesData {k : NodeId} (hrun : D.Runs net) (hi : i ∈ D.ids) (hk : k ∈ D.ids)
    {bootstrap : String}
    (hfind : Returns (TaceChat.findJoinSuccessor (env reliable (depth + 3) (D.info i).address)
      bootstrap) net fun r _ => r = some (D.info k)) :
    Returns (join (env reliable (depth + 3) (D.info i).address) (some bootstrap)) net
      fun _ net' => ChangesData (Transferred i k) (net.setNode (D.info i).address
        { D.at' net.node i with successor := D.info k }) net' := by
  have hid : (net.node (D.info i).address).info.id = i :=
    (congrArg NodeInfo.id (hrun.info i hi)).trans (D.info_id i)
  simp only [join, returns_bind]
  refine (hfind.and (findJoinSuccessor_sameNodes _ _ net)).mono ?_
  rintro _ net₀ ⟨rfl, rfl⟩
  simp only [returns_bind, returns_safeUpdate, pullData, returns_safeLock, env_node, env_setNode,
    env_callNode, setNode_node_self]
  refine (call_read_answered rfl rfl ?_).mpr ?_
  · exact hrun.listening k hk
  · simp only [hid, D.info_id]
    exact forEachValue_changesData (fun e he => transferred_of_mem he)
      fun key value net₁ hkey => store_changesData hkey value

/-- A join, as a run of interleaved steps. -/
theorem exists_join_run {k : NodeId} (hs : D.RingInvariant s f)
    (hfresh : s.task (D.info i).address = .fresh) (hi : i ∈ D.ids) (hk : D.Member s k)
    (hki : k ≠ i) :
    ∃ r, s.Reachable r ∧ RestsAfter (D.info i).address s r ∧
      ∀ net : Network Unit, s.Agrees net → r.Agrees (net.setNode (D.info i).address
        { D.at' net.node i with successor := D.info k }) := by
  have hinfo : (s.node (D.info k).address).info = D.info k := hs.info k hk.1
  have hjoined : ((s.setTask (D.info i).address .lookingUp).task (D.info k).address).Joined := by
    rw [task_setTask hi hk.1, if_neg hki]
    exact hk.2
  have hnamed := RingState.Step.nameSuccessor
    (RingState.setTask_task_self (D.info i).address .lookingUp s) hjoined
  rw [RingState.setTask_node, hinfo] at hnamed
  refine ⟨_, ((RingState.Reachable.refl.step (.askBootstrap hfresh)).step hnamed).step
    (.joinWrite (RingState.setTask_task_self _ _ _)), ?_, fun net hagrees => ?_⟩
  · show Function.update (Function.update (Function.update s.task _ _) _ _) _ _ = _
    rw [Function.update_idem, Function.update_idem]
  · have hnet := hagrees (D.info i).address
    exact RingState.Agrees.setNode hagrees ⟨hnet.info, rfl, hnet.predecessor⟩

/-- A join is a run of steps, and the new node is in the ring after it. -/
theorem Mirrors.join {b : NodeId} (h : D.Mirrors R f s net) (hi : i ∈ D.ids) (hiR : i ∉ R)
    (hb : b ∈ R) :
    Returns (TaceChat.join (env reliable (depth + 3) (D.info i).address)
      (some (D.info b).address)) net fun _ net' =>
        ∃ r, s.Reachable r ∧ D.Mirrors (insert i R) f r net' := by
  have hlookup : Returns (TaceChat.findJoinSuccessor (env reliable (depth + 3) (D.info i).address)
      (D.info b).address) net fun r _ => ∃ j ∈ R, r = some (D.info j) :=
    h.findJoinSuccessor hi hiR hb
  obtain ⟨found, net₀, hfind, k, hk, rfl⟩ := hlookup
  have hkm : D.Member s k := (h.members k).mpr hk
  have hki : k ≠ i := fun heq => hiR (heq ▸ hk)
  obtain ⟨r, hreach, hrest, hr⟩ :=
    exists_join_run h.toRingInvariant (h.fresh i hi hiR) hi hkm hki
  refine (join_changesData h.runs hi hkm.1 ⟨_, net₀, hfind, rfl⟩).mono ?_
  rintro - net' hdata
  refine ⟨r, hreach, h.after hi hrest hreach ?_ ?_ fun j hj => ?_⟩
  · exact hdata.samePointers.runs (h.runs.setNode hi (h.runs.info i hi))
  · exact (hr net h.agrees).samePointers hdata.samePointers
  · have hold := (h.tables j hj).mono fun x hx =>
      hx.imp_left (InRing.mono (Finset.subset_insert i R))
    have hset : SameTables net (net.setNode (D.info i).address
        { D.at' net.node i with successor := D.info k }) := .setNode rfl rfl
    obtain ⟨hfinger, hlist⟩ := hset.trans hdata.sameTables (D.info j).address
    exact ⟨fun x hx => hold.successorList x (hlist ▸ hx), fun x hx =>
      hold.fingerTable x (hfinger ▸ hx)⟩

/-! ### Posts -/

/-- A change of data only. -/
theorem Mirrors.changesData {P : NodeId → Prop} (h : D.Mirrors R f s net)
    (hdata : ChangesData P net net') : D.Mirrors R f s net' := by
  refine { h with runs := ?_, agrees := ?_, tables := fun j hj => ?_ }
  · exact hdata.samePointers.runs h.runs
  · exact h.agrees.samePointers hdata.samePointers
  · obtain ⟨hfinger, hlist⟩ := hdata.sameTables (D.info j).address
    exact ⟨fun x hx => (h.tables j hj).successorList x (hlist ▸ hx), fun x hx =>
      (h.tables j hj).fingerTable x (hfinger ▸ hx)⟩

/-- A post changes data only, whoever handles it. -/
theorem messageHandler_changesData (sha1 : List UInt8 → NodeId)
    (serialize : StoredMessage → Option Value) (now : ℕ) (a : String) (net : Network Unit)
    (request : Except BodyError MessagePayload) :
    Returns (messageHandler (env reliable (depth + 2) a) sha1 serialize now request) net
      fun _ net' => ChangesData (fun _ => True) net net' := by
  unfold messageHandler
  cases request with
  | error error => cases error <;> exact returns_pure.mpr (.refl net)
  | ok payload =>
    cases hserialize : serialize ⟨payload.«from», payload.ciphertext, payload.nonce, now⟩ with
    | none =>
      simp only [hserialize]
      exact returns_pure.mpr (.refl net)
    | some serialized =>
      simp only [hserialize]
      unfold storeAtResponsible
      refine (findSuccessor_finds (.any net) (.any _) _).bind ?_
      rintro r net₁ ⟨hsame, -⟩
      rw [hsame.eq]
      simp only [returns_bind, returns_safeLock, returns_ite, env_node, env_callNode]
      refine ⟨fun _ => ?_, fun _ => ?_⟩
      · refine (store_changesData (P := fun _ => True) trivial serialized).mono ?_
        exact fun _ _ h => returns_pure.mpr h
      · refine (call_store_changesData (P := fun _ => True) trivial r.address serialized).mono ?_
        rintro (_ | _) net₂ h <;> exact returns_pure.mpr h

/-- A posted message changes data only. -/
theorem Mirrors.post (h : D.Mirrors R f s net) (sha1 : List UInt8 → NodeId)
    (serialize : StoredMessage → Option Value) (now : ℕ) (a : String)
    (request : Except BodyError MessagePayload) :
    Returns ((Activity.post now request).run sha1 serialize (depth + 2) a) net fun _ net' =>
      D.Mirrors R f s net' := by
  refine returns_discard.mpr ?_
  exact (messageHandler_changesData sha1 serialize now a net request).mono fun _ _ hdata =>
    h.changesData hdata

/-! ### Chronicles -/

/-- Activities that start with the ring `R`, and the ring after them. -/
inductive Chronicle (D : Directory) :
    Finset NodeId → List (NodeId × Activity) → Finset NodeId → Prop
  | nil (R : Finset NodeId) : Chronicle D R [] R
  | join {R R' : Finset NodeId} {i b : NodeId} {activities : List (NodeId × Activity)}
      (hi : i ∈ D.ids) (hiR : i ∉ R) (hb : b ∈ R) (rest : Chronicle D (insert i R) activities R') :
      Chronicle D R ((i, .join (D.info b).address) :: activities) R'
  | upkeep {R R' : Finset NodeId} {i : NodeId} {activities : List (NodeId × Activity)}
      (task : Upkeep) (hi : i ∈ R) (rest : Chronicle D R activities R') :
      Chronicle D R ((i, .upkeep task) :: activities) R'
  | post {R R' : Finset NodeId} {i : NodeId} {activities : List (NodeId × Activity)} (now : ℕ)
      (request : Except BodyError MessagePayload) (hi : i ∈ R)
      (rest : Chronicle D R activities R') : Chronicle D R ((i, .post now request) :: activities) R'

/-- A background task, as a run of interleaved steps. -/
theorem Mirrors.upkeep (h : D.Mirrors R f s net) (hi : i ∈ R) (task : Upkeep) :
    Returns (task.run (env reliable (depth + 3) (D.info i).address)) net fun _ net' =>
      ∃ ended r, s.Run ended r ∧ (task = .stabilize → (D.info i).address ∈ ended) ∧
        D.Mirrors R f r net' := by
  cases task with
  | stabilize =>
    refine (h.stabilize hi).mono ?_
    rintro - net' ⟨ended, r, hsr, hmem, hr⟩
    exact ⟨ended, r, hsr, fun _ => hmem, hr⟩
  | fixFingers k =>
    refine (h.fixFingers hi k).mono fun _ _ h' => ?_
    exact ⟨∅, s, .refl, fun htask => (nomatch htask), h'⟩
  | checkPredecessor =>
    refine (h.checkPredecessor hi).mono ?_
    rintro - net' rfl
    exact ⟨∅, s, .refl, fun htask => (nomatch htask), h⟩

/-- The network after a chronicle. -/
theorem Mirrors.chronicle {R' : Finset NodeId} {activities : List (NodeId × Activity)}
    {sha1 : List UInt8 → NodeId} {serialize : StoredMessage → Option Value}
    (hops : D.Chronicle R activities R') :
    ∀ {s : RingState} {net : Network Unit}, D.Mirrors R f s net →
      Returns (forM activities fun op => op.2.run sha1 serialize (depth + 3) (D.info op.1).address)
        net fun _ net' => ∃ r, s.Reachable r ∧ D.Mirrors R' f r net' := by
  have htrans : ∀ {s t r : RingState}, s.Reachable t → t.Reachable r → s.Reachable r := by
    intro s t r hst htr
    induction htr with
    | refl => exact hst
    | step _ hstep ih => exact ih.step hstep
  induction hops with
  | nil => exact fun {s} _ h => returns_pure.mpr ⟨s, .refl, h⟩
  | join hi hiR hb rest ih =>
    intro s net h
    rw [List.forM_cons]
    refine (h.join hi hiR hb).bind ?_
    rintro - net₁ ⟨t, hst, ht⟩
    exact (ih ht).mono fun _ _ ⟨r, htr, hr⟩ => ⟨r, htrans hst htr, hr⟩
  | upkeep task hi rest ih =>
    intro s net h
    rw [List.forM_cons]
    refine (h.upkeep hi task).bind ?_
    rintro - net₁ ⟨ended, t, hst, -, ht⟩
    exact (ih ht).mono fun _ _ ⟨r, htr, hr⟩ => ⟨r, htrans (run_reachable hst) htr, hr⟩
  | post now request hi rest ih =>
    intro s net h
    rw [List.forM_cons]
    exact (h.post sha1 serialize now _ request).bind fun _ _ h₁ => ih h₁

/-! ### The founder -/

/-- The founder has started a new network. The other nodes know themselves only. -/
structure FoundedNetwork (D : Directory) (f : NodeId) (net : Network Unit) : Prop where
  mem : f ∈ D.ids
  runs : D.Runs net
  founder : ∃ n : ChordNode, n.info = D.info f ∧ D.at' net.node f = n.startNewNetwork
  predecessor : ∀ i ∈ D.ids, (D.at' net.node i).predecessor = none
  tables : ∀ i ∈ D.ids, (D.at' net.node i).Tables fun x => x = D.info i

/-- The founder is idle, and the other nodes have not begun to join. -/
def startState (D : Directory) (f : NodeId) (net : Network Unit) : RingState where
  node := net.node
  task a :=
    if a = (D.info f).address then .idle
    else if a ∈ D.ids.image fun i => (D.info i).address then .fresh
    else .outside

/-- The founder has started in the sense of the steps, too. -/
theorem FoundedNetwork.founded (h : D.FoundedNetwork f net) : D.Founded f (D.startState f net) := by
  refine ⟨h.mem, fun a ha => ?_, h.runs.info, h.founder, if_pos rfl, h.predecessor,
    fun i hi hif => ?_⟩
  · by_cases hf : a = (D.info f).address
    · exact ⟨f, h.mem, hf⟩
    · by_cases hmem : a ∈ D.ids.image fun i => (D.info i).address
      · obtain ⟨i, hi, rfl⟩ := Finset.mem_image.mp hmem
        exact ⟨i, hi, rfl⟩
      · exact absurd ((if_neg hf).trans (if_neg hmem)) ha
  · have hne : (D.info i).address ≠ (D.info f).address := fun heq =>
      hif (D.address_inj i hi f h.mem heq)
    exact (if_neg hne).trans (if_pos (Finset.mem_image_of_mem _ hi))

/-- The first network mirrors the first state, with the founder as the whole ring. -/
theorem FoundedNetwork.mirrors (h : D.FoundedNetwork f net) :
    D.Mirrors {f} f (D.startState f net) net := by
  have hstart := h.founded
  refine ⟨⟨hstart.settlingInvariant, fun i => ?_⟩, h.runs, fun a => ⟨rfl, rfl, rfl⟩, fun i hi => ?_,
    fun i hi hif => ?_, fun i hi => (h.tables i hi).mono fun x hx => Or.inr hx⟩
  · rw [Finset.mem_singleton]
    constructor
    · intro hi
      by_contra hif
      have hjoined := hi.2
      rw [hstart.fresh i hi.1 hif] at hjoined
      exact hjoined
    · rintro rfl
      refine ⟨h.mem, ?_⟩
      rw [hstart.idle]
      trivial
  · rw [Finset.mem_singleton.mp hi]
    exact hstart.idle
  · exact hstart.fresh i hi fun heq => hif (Finset.mem_singleton.mpr heq)

end Directory

/-- Every chronicle of a network, from its founder on, runs to its end. It leaves the network with
the pointers of a state that the interleaved steps of joins and stabilizations reach, in which the
nodes that have joined are those of the chronicle. The nodes of the ring hold infos of nodes of the
ring only. -/
theorem chronicle_mirrors_steps (D : Directory) (f : NodeId) (net : Network Unit) (depth : ℕ)
    (sha1 : List UInt8 → NodeId) (serialize : StoredMessage → Option Value)
    (activities : List (NodeId × Activity)) (R : Finset NodeId) (hnet : D.FoundedNetwork f net)
    (hchronicle : D.Chronicle {f} activities R) :
    Returns (forM activities fun activity =>
        activity.2.run sha1 serialize (depth + 3) (D.info activity.1).address) net fun _ net' =>
      (∃ start s, D.Founded f start ∧ start.Reachable s ∧ (∀ i, D.Member s i ↔ i ∈ R) ∧
        ∀ a, (s.node a).Agrees (net'.node a)) ∧
      ∀ i ∈ R, Reports (fun x => ∃ j ∈ R, x = D.info j) (D.at' net'.node i) := by
  refine (hnet.mirrors.chronicle hchronicle).mono ?_
  rintro - net' ⟨s, hreach, hs⟩
  exact ⟨⟨_, s, hnet.founded, hreach, hs.members, hs.agrees⟩, fun i hi => hs.reports hi⟩

/-- The network of the founder 10, before the node 20 begins to join. -/
def pairNetwork : Network Unit := Network.ofIds (linkedNode id fun _ => none)

/-- The node 10 has founded the network. -/
theorem pairNetwork_founded :
    (Directory.ofIds pairIds).FoundedNetwork (biguintToNodeId 10) pairNetwork := by
  have hat : ∀ i, (Directory.ofIds pairIds).at' pairNetwork.node i
      = linkedNode id (fun _ => none) i := fun i => Directory.at'_ofIds _ _ i
  refine ⟨by decide, ⟨fun i _ => ?_, fun i _ => rfl⟩, ⟨linkedNode id (fun _ => none) _, rfl, ?_⟩,
    fun i _ => ?_, fun i _ => ⟨fun x hx => ?_, fun x hx => ?_⟩⟩
  · rw [hat]
    rfl
  · rw [hat]
    rfl
  · rw [hat]
    rfl
  · rw [hat] at hx
    exact List.eq_of_mem_replicate hx
  · rw [hat] at hx
    exact List.eq_of_mem_replicate hx

/-- The node 20 joins through the founder, and both have background tasks. -/
def pairActivities : List (NodeId × Activity) :=
  [(biguintToNodeId 20, .join (infoOf (biguintToNodeId 10)).address),
    (biguintToNodeId 20, .upkeep .stabilize), (biguintToNodeId 10, .upkeep (.fixFingers 5)),
    (biguintToNodeId 10, .upkeep .checkPredecessor)]

/-- The activities of the two nodes make a chronicle. -/
theorem pairActivities_chronicle : (Directory.ofIds pairIds).Chronicle {biguintToNodeId 10}
    pairActivities {biguintToNodeId 20, biguintToNodeId 10} :=
  .join (by decide) (by decide) (Finset.mem_singleton_self _)
    (.upkeep _ (by decide) (.upkeep _ (by decide) (.upkeep _ (by decide) (.nil _))))

/-- `chronicle_mirrors_steps` for the two nodes. -/
theorem chronicle_mirrors_steps_pairActivities :
    Returns (forM pairActivities fun activity =>
        activity.2.run (fun _ => biguintToNodeId 0) (fun _ => none) 3
          ((Directory.ofIds pairIds).info activity.1).address) pairNetwork fun _ net' =>
      ∃ start s, (Directory.ofIds pairIds).Founded (biguintToNodeId 10) start ∧
        start.Reachable s ∧ (Directory.ofIds pairIds).Member s (biguintToNodeId 20) ∧
        ∀ a, (s.node a).Agrees (net'.node a) :=
  (chronicle_mirrors_steps _ _ _ 0 _ _ _ _ pairNetwork_founded pairActivities_chronicle).mono
    fun _ _ ⟨⟨start, s, hstart, hreach, hmembers, hagrees⟩, _⟩ =>
      ⟨start, s, hstart, hreach, (hmembers _).mpr (by decide), hagrees⟩

end TaceChat
