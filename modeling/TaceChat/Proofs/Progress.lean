import TaceChat.Proofs.Hops

/-!
# The progress of a walk

The walk of `find_predecessor` trusts nobody's finger table to be complete, fresh or in order: a
node answers with itself or with one of its fingers that lies in (node, id], so every hop comes
nearer to the id (`walkLoop_advances`). All that this needs of the network is that the fingers lead
to the nodes that they name (`Network.Resolves`). Successors may be anything, and calls may fail.

`findPredecessorWalk` is `findPredecessor` with a record of the nodes that it visits and of the
successor that its guard accepted (`findPredecessor_eq_walk`).
-/

set_option autoImplicit false

namespace TaceChat

open IdCircle Network

/-- One run of the loop of `find_predecessor`: the nodes that it moved away from, the node that it
returned, and the successor that its guard accepted when it ended there. -/
structure Walk where
  trail : List NodeInfo
  result : NodeInfo
  guard : Option NodeInfo

/-- The visited nodes in the order of the visits. -/
def Walk.nodes (w : Walk) : List NodeInfo := w.trail ++ [w.result]

section Record

variable {σ : Type} (env : NodeEnv σ)

/-- `findPredecessorLoop` with a record. -/
def walkLoop (id : NodeId) : ℕ → NodeInfo → NodeInfo → NodeM σ Walk
  | retries, nPrime, currentSuccessor => do
    if isBetween id nPrime.id currentSuccessor.id then
      return ⟨[], nPrime, some currentSuccessor⟩
    else
      match retries with
      | 0 => return ⟨[], nPrime, none⟩
      | retries + 1 =>
        match ← nextNode env id nPrime with
        | none => return ⟨[], nPrime, none⟩
        | some next =>
          if next.id = nPrime.id then
            return ⟨[], nPrime, none⟩
          else
            match ← successorOf env next with
            | none => return ⟨[nPrime], next, none⟩
            | some successor =>
              let rest ← walkLoop id retries next successor
              return { rest with trail := nPrime :: rest.trail }

/-- `findPredecessor` with a record. -/
def findPredecessorWalk (id : NodeId) : NodeM σ Walk := do
  let self ← env.safeLock
  walkLoop env id maxRetries self.info self.successor

/-- The record does not change what the loop returns, by induction on its retries. -/
theorem findPredecessorLoop_eq_walk (id : NodeId) (retries : ℕ) (nPrime successor : NodeInfo) :
    findPredecessorLoop env id retries nPrime successor =
      Walk.result <$> walkLoop env id retries nPrime successor := by
  induction retries generalizing nPrime successor with
  | zero =>
    rw [findPredecessorLoop, walkLoop]
    split <;> rw [map_pure]
  | succ retries ih =>
    rw [findPredecessorLoop, walkLoop]
    split
    · rw [map_pure]
    · rw [map_bind]
      congr 1
      funext next
      cases next with
      | none => rw [map_pure]
      | some next =>
        dsimp only
        split
        · rw [map_pure]
        · rw [map_bind]
          congr 1
          funext s
          cases s with
          | none => rw [map_pure]
          | some s =>
            dsimp only
            rw [ih, map_bind]
            simp only [map_pure, bind_pure_comp]

/-- The record changes nothing. -/
theorem findPredecessor_eq_walk (id : NodeId) :
    findPredecessor env id = Walk.result <$> findPredecessorWalk env id := by
  rw [findPredecessor, findPredecessorWalk, map_bind]
  simp only [findPredecessorLoop_eq_walk]

end Record

section Walks

variable {φ : Type} {medium : Medium φ} {depth : ℕ} {net net' : Network φ} {a : String}
  {id : NodeId} {x : NodeInfo}

/-- Whatever listens at the address of a finger is the node that the finger names. -/
def Network.Resolves (net : Network φ) : Prop :=
  ∀ a, ∀ x ∈ (net.node a).fingerTable, net.listening x.address = true →
    (net.node x.address).info.id = x.id

/-- `x` is this node, or what listens at its address is the node that it names. -/
def Located (net : Network φ) (a : String) (x : NodeInfo) : Prop :=
  x.id = (net.node a).info.id ∨
    (net.listening x.address = true → (net.node x.address).info.id = x.id)

/-- The successor that a node of the walk reports to the walking node. -/
def reportedSuccessor (net : Network φ) (a : String) (x : NodeInfo) : NodeInfo :=
  if x.id = (net.node a).info.id then (net.node a).successor else (net.node x.address).successor

/-- The same nodes listen at the same addresses. -/
theorem Network.Resolves.sameNodes (hres : net.Resolves) (hs : SameNodes net net') :
    net'.Resolves := by
  unfold Network.Resolves
  rw [hs.1, hs.2]
  exact hres

/-- The same node is found at the address. -/
theorem Located.sameNodes (hx : Located net a x) (hs : SameNodes net net') :
    Located net' a x := by
  unfold Located
  rw [hs.1, hs.2]
  exact hx

/-- The same nodes report the same successors. -/
theorem reportedSuccessor_sameNodes (hs : SameNodes net net') :
    reportedSuccessor net' a x = reportedSuccessor net a x := by
  unfold reportedSuccessor
  rw [hs.1]

/-- The answer of a node is the node itself or lies nearer to the id. -/
theorem closestPrecedingNode_located (hres : net.Resolves) (b : String) (id : NodeId) :
    ((net.node b).closestPrecedingNode id).id = (net.node b).info.id ∨
      InArc ((net.node b).closestPrecedingNode id).id (net.node b).info.id id ∧
        Located net a ((net.node b).closestPrecedingNode id) := by
  rcases (net.node b).closestPrecedingNode_mem id with hself | hfinger
  · exact Or.inl (congrArg NodeInfo.id hself)
  · rcases (net.node b).closestPrecedingNode_inArc id with hself | hin
    · exact Or.inl (congrArg NodeInfo.id hself)
    · exact Or.inr ⟨hin, Or.inr (hres b _ hfinger)⟩

/-- The next node of the walk is the same one or lies nearer to the id. -/
theorem nextNode_nearer (hres : net.Resolves) (hx : Located net a x) :
    Returns (nextNode (env medium (depth + 1) a) id x) net fun r net' => SameNodes net net' ∧
      ∀ y, r = some y → y.id = x.id ∨ InArc y.id x.id id ∧ Located net a y := by
  simp only [nextNode, returns_bind, returns_safeLock, returns_ite, env_node, env_callNode]
  refine ⟨fun hself => ?_, fun hother => ?_⟩
  · refine returns_pure.mpr ⟨.refl net, ?_⟩
    rintro y ⟨⟩
    rw [hself]
    exact closestPrecedingNode_located hres a id
  · refine (call_read_listening rfl).mono ?_
    rintro r net' ⟨hs, rfl | ⟨rfl, hl⟩⟩
    · simp [hs]
    · refine returns_pure.mpr ⟨hs, ?_⟩
      rintro y ⟨⟩
      rw [← hx.resolve_left hother hl]
      exact closestPrecedingNode_located hres x.address id

/-- The walk reads the successor that is reported. -/
theorem successorOf_reported : Returns (successorOf (env medium (depth + 1) a) x) net
    fun r net' => SameNodes net net' ∧ ∀ s, r = some s → s = reportedSuccessor net a x := by
  simp only [successorOf, returns_bind, returns_safeLock, returns_ite, env_node, env_callNode]
  refine ⟨fun hself => ?_, fun hother => ?_⟩
  · refine returns_pure.mpr ⟨.refl net, ?_⟩
    rintro s ⟨⟩
    rw [reportedSuccessor, if_pos hself]
  · refine (call_read rfl).mono ?_
    rintro r net' ⟨hs, rfl | rfl⟩
    · simp [hs]
    · refine returns_pure.mpr ⟨hs, ?_⟩
      rintro s ⟨⟩
      rw [reportedSuccessor, if_neg hother]

/-- A hop from `x` to `y` that comes nearer to the id and not beyond it. -/
def Nearer (id : NodeId) (x y : NodeInfo) : Prop := InArc y.id x.id id

/-- Two hops that come nearer make one that does. -/
instance : Trans (Nearer id) (Nearer id) (Nearer id) where
  trans h h' := InArc.trans h' h

/-- The walk starts at `x`, every hop comes nearer to the id, and the guard accepts only the
reported successor of the node that is returned. -/
structure Advances (net : Network φ) (a : String) (id : NodeId) (x : NodeInfo) (w : Walk) :
    Prop where
  start : ∃ rest, w.nodes = x :: rest
  nearer : w.nodes.IsChain (Nearer id)
  guard : ∀ s, w.guard = some s →
    s = reportedSuccessor net a w.result ∧ isBetween id w.result.id s.id = true

/-- A walk that ends where it starts, but not through its guard. -/
theorem advances_stop : Advances net a id x ⟨[], x, none⟩ :=
  ⟨⟨[], rfl⟩, List.isChain_singleton x, fun _ h => nomatch h⟩

/-- One more hop before a walk. -/
theorem Advances.hop {y : NodeInfo} {w : Walk} (hw : Advances net a id y w)
    (hxy : InArc y.id x.id id) : Advances net a id x { w with trail := x :: w.trail } := by
  have hnodes : Walk.nodes { w with trail := x :: w.trail } = x :: w.nodes := rfl
  refine ⟨⟨w.nodes, hnodes⟩, ?_, hw.guard⟩
  rw [hnodes]
  obtain ⟨rest, hrest⟩ := hw.start
  have hnearer := hw.nearer
  rw [hrest] at hnearer ⊢
  exact List.isChain_cons_cons.mpr ⟨hxy, hnearer⟩

/-- The same nodes are walked over. -/
theorem Advances.sameNodes {w : Walk} (hw : Advances net' a id x w) (hs : SameNodes net net') :
    Advances net a id x w := by
  refine ⟨hw.start, hw.nearer, ?_⟩
  intro s hguard
  rw [← reportedSuccessor_sameNodes hs]
  exact hw.guard s hguard

/-- The invariant of the loop. -/
theorem walkLoop_advances (retries : ℕ) : ∀ {net : Network φ} {x : NodeInfo}, net.Resolves →
    Located net a x →
    Returns (walkLoop (env medium (depth + 1) a) id retries x (reportedSuccessor net a x)) net
      fun w net' => SameNodes net net' ∧ Advances net a id x w := by
  induction retries with
  | zero =>
    intro net x hres hx
    rw [walkLoop]
    refine returns_ite.mpr ⟨fun hon => ?_, fun hoff => ?_⟩
    · refine returns_pure.mpr ⟨.refl net, ⟨[], rfl⟩, List.isChain_singleton x, ?_⟩
      rintro s ⟨⟩
      exact ⟨rfl, hon⟩
    · exact returns_pure.mpr ⟨.refl net, advances_stop⟩
  | succ retries ih =>
    intro net x hres hx
    rw [walkLoop]
    refine returns_ite.mpr ⟨fun hon => ?_, fun hoff => ?_⟩
    · refine returns_pure.mpr ⟨.refl net, ⟨[], rfl⟩, List.isChain_singleton x, ?_⟩
      rintro s ⟨⟩
      exact ⟨rfl, hon⟩
    · refine (nextNode_nearer hres hx).bind ?_
      rintro (_ | y) net₁ ⟨h₁, hy⟩
      · exact returns_pure.mpr ⟨h₁, advances_stop⟩
      · refine returns_ite.mpr ⟨fun hstuck => ?_, fun hmove => ?_⟩
        · exact returns_pure.mpr ⟨h₁, advances_stop⟩
        · obtain ⟨hxy, hlocated⟩ := (hy y rfl).resolve_left hmove
          refine successorOf_reported.bind ?_
          rintro (_ | s) net₂ ⟨h₂, hs⟩
          · exact returns_pure.mpr ⟨h₁.trans h₂, Advances.hop advances_stop hxy⟩
          · -- The rest of the walk starts at `y`, in a network of the same nodes.
            have h₁₂ := h₁.trans h₂
            have hsucc : s = reportedSuccessor net₂ a y := by
              rw [hs s rfl, reportedSuccessor_sameNodes h₁, reportedSuccessor_sameNodes h₁₂]
            rw [hsucc]
            refine (ih (hres.sameNodes h₁₂) (hlocated.sameNodes h₁₂)).bind ?_
            rintro w net₃ ⟨h₃, hw⟩
            exact returns_pure.mpr ⟨h₁₂.trans h₃, (hw.sameNodes h₁₂).hop hxy⟩

/-- A chain of hops comes nearer to the id with every hop. -/
theorem Advances.pairwise_cw {w : Walk} (hw : Advances net a id x w) :
    w.nodes.Pairwise fun y z => cw z.id id < cw y.id id :=
  hw.nearer.pairwise.imp fun h => h.cw_lt_cw

/-- So it visits no id twice. -/
theorem Advances.nodup {w : Walk} (hw : Advances net a id x w) :
    (w.nodes.map NodeInfo.id).Nodup := by
  rw [List.Nodup, List.pairwise_map]
  refine hw.pairwise_cw.imp ?_
  intro y z hlt heq
  rw [heq] at hlt
  exact Nat.lt_irrefl _ hlt

/-- The result is the first node of the walk or lies between that node and the id. -/
theorem Advances.result {w : Walk} (hw : Advances net a id x w) :
    w.result = x ∨ InArc w.result.id x.id id := by
  obtain ⟨rest, hrest⟩ := hw.start
  have hlast : w.result ∈ w.nodes := List.mem_append_right _ List.mem_cons_self
  have hpairwise := hw.nearer.pairwise
  rw [hrest] at hlast hpairwise
  rcases List.mem_cons.mp hlast with hx | hlater
  · exact Or.inl hx
  · exact Or.inr (List.rel_of_pairwise_cons hpairwise hlater)

end Walks

/-- Whatever the fingers, the successors and the fate of the calls: in one run of
`find_predecessor` every hop shortens the clockwise distance to the id, no node is visited twice,
the result is the querying node or lies between it and the id, and a walk that ends through its
guard has the id between its result and the successor that the result reports. -/
theorem findPredecessor_progress {φ : Type} (medium : Medium φ) (depth : ℕ) (net : Network φ)
    (a : String) (id : NodeId) (hres : net.Resolves) :
    findPredecessor (env medium (depth + 1) a) id =
      Walk.result <$> findPredecessorWalk (env medium (depth + 1) a) id ∧
    Returns (findPredecessorWalk (env medium (depth + 1) a) id) net fun w _ =>
      w.nodes.head? = some (net.node a).info ∧
      w.nodes.Pairwise (fun x y => cw y.id id < cw x.id id) ∧
      (w.nodes.map NodeInfo.id).Nodup ∧
      (w.result = (net.node a).info ∨ InArc w.result.id (net.node a).info.id id) ∧
      ∀ s, w.guard = some s →
        s = reportedSuccessor net a w.result ∧ isBetween id w.result.id s.id = true := by
  refine ⟨findPredecessor_eq_walk _ id, ?_⟩
  have hself : reportedSuccessor net a (net.node a).info = (net.node a).successor := if_pos rfl
  simp only [findPredecessorWalk, returns_bind, returns_safeLock, env_node]
  rw [← hself]
  refine (walkLoop_advances maxRetries hres (Or.inl rfl)).mono ?_
  rintro w net' ⟨-, hw⟩
  obtain ⟨rest, hrest⟩ := hw.start
  exact ⟨congrArg List.head? hrest, hw.pairwise_cw, hw.nodup, hw.result, hw.guard⟩

/-- `findPredecessor_progress` in the ring of the two nodes 10 and 20 with refreshed fingers. -/
theorem findPredecessor_progress_pair :
    Returns (findPredecessorWalk (env reliable 1 (infoOf (biguintToNodeId 10)).address)
      (biguintToNodeId 25)) (Network.ofIds refreshedNode) fun w _ =>
        (w.nodes.map NodeInfo.id).Nodup := by
  have hres : (Network.ofIds refreshedNode).Resolves := by
    intro a x hx _
    obtain ⟨k, -, rfl⟩ := List.mem_map.mp hx
    exact congrArg (fun i => (refreshedNode i).info.id) (idOf_addressOf _)
  obtain ⟨-, hwalk⟩ := findPredecessor_progress reliable 0 (Network.ofIds refreshedNode)
    (infoOf (biguintToNodeId 10)).address (biguintToNodeId 25) hres
  exact hwalk.mono fun w _ hw => hw.2.2.1

end TaceChat
