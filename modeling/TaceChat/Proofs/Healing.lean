import TaceChat.Proofs.Chronicles

/-!
# Maintenance makes the network correct

The background loops of the nodes run their tasks in some order. A round is a part of it in which
every node of the ring stabilizes once at least, among tasks of any kind. By `Mirrors.upkeep` a
round is a pass of the interleaved steps, so enough rounds make the pointers of the network exact
(`Mirrors.rounds`). In a ring with exact pointers one more round makes the successor lists exact.
`chronicle_then_rounds` puts this behind any chronicle of the network.
-/

set_option autoImplicit false

namespace TaceChat

open IdCircle Network

namespace Directory

variable {D : Directory} {R : Finset NodeId} {f : NodeId} {s : RingState} {net : Network Unit}
  {depth : ℕ} {tasks : List (NodeId × Upkeep)}

/-- Tasks of nodes of the ring, in which each of them stabilizes. -/
structure Round (R : Finset NodeId) (tasks : List (NodeId × Upkeep)) : Prop where
  members : ∀ t ∈ tasks, t.1 ∈ R
  stabilizes : ∀ i ∈ R, (i, Upkeep.stabilize) ∈ tasks

/-- The tasks with the addresses of their nodes. -/
def atAddresses (D : Directory) (tasks : List (NodeId × Upkeep)) : List (String × Upkeep) :=
  tasks.map fun t => ((D.info t.1).address, t.2)

/-- Background tasks make a run. -/
theorem Mirrors.background (h : D.Mirrors R f s net) (hmem : ∀ t ∈ tasks, t.1 ∈ R) :
    Returns (TaceChat.background (depth + 3) (D.atAddresses tasks)) net fun _ net' =>
      ∃ ended r, s.Run ended r ∧
        (∀ i, (i, Upkeep.stabilize) ∈ tasks → (D.info i).address ∈ ended) ∧
        D.Mirrors R f r net' := by
  unfold TaceChat.background atAddresses
  induction tasks generalizing s net with
  | nil => exact returns_pure.mpr ⟨∅, s, .refl, fun _ hi => (nomatch hi), h⟩
  | cons t tasks ih =>
    obtain ⟨hi, hrest⟩ := List.forall_mem_cons.mp hmem
    rw [List.map_cons, List.forM_cons]
    refine (h.upkeep hi t.2).bind ?_
    rintro - net₁ ⟨ended, u, hsu, hends, hu⟩
    refine (ih hu hrest).mono ?_
    rintro - net₂ ⟨ended', r, hur, hall, hr⟩
    refine ⟨_, r, run_trans hsu hur, fun j hj => ?_, hr⟩
    rcases List.mem_cons.mp hj with rfl | hj
    · exact Or.inl (hends rfl)
    · exact Or.inr (hall j hj)

/-- A round is a pass. -/
theorem Mirrors.round (h : D.Mirrors R f s net) (hround : Round R tasks) :
    Returns (TaceChat.background (depth + 3) (D.atAddresses tasks)) net fun _ net' =>
      ∃ r, D.Pass R s r ∧ D.Mirrors R f r net' := by
  refine (h.background hround.members).mono ?_
  rintro - net' ⟨ended, r, hsr, hall, hr⟩
  exact ⟨r, ⟨hr.members, ended, hsr, fun i hi => hall i (hround.stabilizes i hi)⟩, hr⟩

/-- Rounds are passes in a row. -/
theorem Mirrors.rounds {t : RingState} {k : ℕ} (h : D.Mirrors R f t net)
    (hrow : InARow (D.Pass R) k s t) {rounds : List (List (NodeId × Upkeep))}
    (hrounds : ∀ round ∈ rounds, Round R round) :
    Returns (forM rounds fun round => TaceChat.background (depth + 3) (D.atAddresses round)) net
      fun _ net' => ∃ r, InARow (D.Pass R) (k + rounds.length) s r ∧ D.Mirrors R f r net' := by
  induction rounds generalizing t net k with
  | nil => exact returns_pure.mpr ⟨t, hrow, h⟩
  | cons round rounds ih =>
    obtain ⟨hround, hrest⟩ := List.forall_mem_cons.mp hrounds
    rw [List.forM_cons]
    refine (h.round hround).bind ?_
    rintro - net₁ ⟨u, hpass, hu⟩
    refine (ih hu (hrow.more hpass) hrest).mono ?_
    rintro - net₂ ⟨r, hrow', hr⟩
    refine ⟨r, ?_, hr⟩
    rw [List.length_cons, Nat.add_comm rounds.length, ← Nat.add_assoc]
    exact hrow'

/-! ### Successor lists -/

/-- A round in a ring of two nodes or more with exact pointers makes the successor lists exact. -/
theorem background_exact (hcard : 1 < D.ids.card) (hrun : D.Runs net)
    (hexact : D.ExactPointers D.ids net.node) (hround : Round D.ids tasks) :
    Returns (TaceChat.background (depth + 1) (D.atAddresses tasks)) net fun _ net' =>
      KeepsPointers net net' ∧ ∀ i ∈ D.ids, D.listAt net' i = D.nextList D.ids i := by
  have hswap : ∀ t ∈ tasks.map Prod.swap, t.2 ∈ D.ids := by
    intro t ht
    obtain ⟨u, hu, rfl⟩ := List.mem_map.mp ht
    exact hround.members u hu
  unfold TaceChat.background atAddresses
  rw [List.forM_map]
  have htasks : Returns (forM (tasks.map Prod.swap) fun t =>
      t.1.run (env reliable (depth + 1) (D.info t.2).address)) net _ :=
    forM_upkeep_exact (tasks.map Prod.swap) hrun hexact hswap
  rw [List.forM_map] at htasks
  refine htasks.mono ?_
  rintro - net' ⟨hkeeps, -, hlists⟩
  refine ⟨hkeeps, fun i hi => hlists i ?_ hcard⟩
  exact List.mem_map.mpr ⟨_, hround.stabilizes i hi, rfl⟩

/-- One round or more in such a ring. -/
theorem rounds_exact (hcard : 1 < D.ids.card) (hrun : D.Runs net)
    (hexact : D.ExactPointers D.ids net.node) {round : List (NodeId × Upkeep)}
    {rounds : List (List (NodeId × Upkeep))} (hrounds : ∀ r ∈ round :: rounds, Round D.ids r) :
    Returns (forM (round :: rounds) fun round =>
        TaceChat.background (depth + 1) (D.atAddresses round)) net fun _ net' =>
      ∀ i ∈ D.ids, D.listAt net' i = D.nextList D.ids i := by
  obtain ⟨hround, hrest⟩ := List.forall_mem_cons.mp hrounds
  rw [List.forM_cons]
  refine (background_exact hcard hrun hexact hround).bind ?_
  rintro - net₁ h₁
  refine (Returns.forM (I := fun net' => KeepsPointers net net' ∧
    ∀ i ∈ D.ids, D.listAt net' i = D.nextList D.ids i) (fun r hr net₂ h₂ => ?_) h₁).mono
    fun _ _ h => h.2
  have hsame := h₂.1.toSamePointers
  exact (background_exact hcard (hsame.runs hrun) (hsame.exactPointers hexact) (hrest r hr)).mono
    fun _ _ h => ⟨h₂.1.trans h.1, h.2⟩

/-- Nodes that agree have exact pointers on both sides. -/
theorem ExactPointers.agrees (h : D.ExactPointers R s.node) (hagrees : s.Agrees net) :
    D.ExactPointers R net.node where
  successor i hi := (hagrees _).successor.symm.trans (h.successor i hi)
  predecessor i hi := (hagrees _).predecessor.symm.trans (h.predecessor i hi)

/-- Enough rounds make pointers and successor lists exact. -/
theorem Mirrors.heals (h : D.Mirrors R f s net) {rounds : List (List (NodeId × Upkeep))}
    (hrounds : ∀ round ∈ rounds, Round R round) (hlength : 4 * R.card ^ 2 + 5 ≤ rounds.length) :
    Returns (forM rounds fun round => TaceChat.background (depth + 3) (D.atAddresses round)) net
      fun _ net' => D.ExactPointers R net'.node ∧
        (1 < R.card → ∀ i ∈ R, D.listAt net' i = D.nextList R i) := by
  -- The pointers are exact before the last rounds, which write the lists.
  obtain ⟨first, round, last, rfl, hfirst⟩ : ∃ first round last, rounds = first ++ round :: last ∧
      first.length = 4 * R.card ^ 2 + 4 := by
    refine ⟨rounds.take (4 * R.card ^ 2 + 4), rounds[4 * R.card ^ 2 + 4],
      rounds.drop (4 * R.card ^ 2 + 5), ?_, ?_⟩
    · rw [List.getElem_cons_drop, List.take_append_drop]
    · rw [List.length_take]
      omega
  obtain ⟨hfirsts, hlasts⟩ := List.forall_mem_append.mp hrounds
  rw [List.forM_append]
  refine (h.rounds (.none s) hfirsts).bind ?_
  rintro - net₁ ⟨t, hrow, ht⟩
  obtain ⟨-, hexact⟩ := h.toSettling.converges hrow (by omega)
  have hpointers : D.ExactPointers R net₁.node := hexact.pointers.agrees ht.agrees
  have hend : Returns (forM (round :: last) fun round =>
      TaceChat.background (depth + 3) (D.atAddresses round)) net₁ fun _ net' =>
        D.ExactPointers R net'.node := by
    refine (ht.rounds hrow hlasts).mono ?_
    rintro - net' ⟨r, hrow', hr⟩
    obtain ⟨-, hexact'⟩ := h.toSettling.converges hrow' (by omega)
    exact hexact'.pointers.agrees hr.agrees
  by_cases hcard : 1 < R.card
  · -- The nodes of the ring are a network of their own.
    exact (hend.and (rounds_exact (D := D.restrict fun _ hi => ht.mem_ids hi) hcard
      ht.serves.toRuns ⟨hpointers.successor, hpointers.predecessor⟩ hlasts)).mono
      fun _ _ hr => ⟨hr.1, fun _ => hr.2⟩
  · exact hend.mono fun _ _ hr => ⟨hr, fun h => absurd h hcard⟩

end Directory

/-- Whatever has happened in a network since it was founded, the background loops of the nodes that
have joined make it correct: every node has its neighbours as successor and predecessor, and a
successor list of its next nodes. Four times the square of the number of nodes and five more rounds
are enough, in each of which every node stabilizes, among tasks of any kind and in any order. -/
theorem chronicle_then_rounds (D : Directory) (f : NodeId) (net : Network Unit) (depth : ℕ)
    (sha1 : List UInt8 → NodeId) (serialize : StoredMessage → Option Value)
    (activities : List (NodeId × Activity)) (R : Finset NodeId)
    (rounds : List (List (NodeId × Upkeep)))
    (hnet : D.FoundedNetwork f net) (hchronicle : D.Chronicle {f} activities R)
    (hrounds : ∀ round ∈ rounds, Directory.Round R round)
    (hlength : 4 * R.card ^ 2 + 5 ≤ rounds.length) :
    Returns (do
        forM activities fun activity =>
          activity.2.run sha1 serialize (depth + 3) (D.info activity.1).address
        forM rounds fun round => background (depth + 3) (D.atAddresses round)) net fun _ net' =>
      D.ExactPointers R net'.node ∧
        (1 < R.card → ∀ i ∈ R, (D.at' net'.node i).successorList = D.nextList R i) := by
  refine (hnet.mirrors.chronicle hchronicle).bind ?_
  rintro - net₁ ⟨s, -, hs⟩
  exact hs.heals hrounds hlength

/-- A round of the two nodes. -/
def pairRound : List (NodeId × Upkeep) :=
  [(biguintToNodeId 10, .stabilize), (biguintToNodeId 20, .fixFingers 1),
    (biguintToNodeId 20, .stabilize)]

/-- Both nodes stabilize in the round, and no other node has a task in it. -/
theorem pairRound_round :
    Directory.Round ({biguintToNodeId 20, biguintToNodeId 10} : Finset NodeId) pairRound := by
  refine ⟨fun t ht => ?_, fun i hi => ?_⟩
  · simp only [pairRound, List.mem_cons, List.not_mem_nil, or_false] at ht
    rcases ht with rfl | rfl | rfl <;> decide
  · simp only [Finset.mem_insert, Finset.mem_singleton] at hi
    rcases hi with rfl | rfl
    · exact .tail _ (.tail _ (.head _))
    · exact .head _

/-- `chronicle_then_rounds` for two nodes, with 21 rounds. -/
theorem chronicle_then_rounds_pairActivities :
    Returns (do
        forM pairActivities fun activity =>
          activity.2.run (fun _ => biguintToNodeId 0) (fun _ => none) 3
            ((Directory.ofIds pairIds).info activity.1).address
        forM (List.replicate 21 pairRound) fun round =>
          background 3 ((Directory.ofIds pairIds).atAddresses round)) pairNetwork
      fun _ net' => ((Directory.ofIds pairIds).at' net'.node (biguintToNodeId 10)).successor
        = (Directory.ofIds pairIds).info (biguintToNodeId 20) := by
  refine (chronicle_then_rounds _ _ _ 0 _ _ _ _ (List.replicate 21 pairRound) pairNetwork_founded
    pairActivities_chronicle (fun round hround => ?_) (by decide)).mono ?_
  · rw [List.eq_of_mem_replicate hround]
    exact pairRound_round
  · rintro - net' ⟨hexact, -⟩
    have hpair : ({biguintToNodeId 20, biguintToNodeId 10} : Finset NodeId) = pairIds := by decide
    rw [hexact.successor _ (by decide), hpair, next_pairIds (by decide)]
    rfl

end TaceChat
