import TaceChat.Proofs.TaskRules

/-!
# The representation of a node

`ChordNode.WellFormed` is what the fields of a node always satisfy: the predecessor is another node,
and the successor list and the finger table have their sizes. `wellFormed_taskRules` checks it for
each kind of write, together with `StaysLinked`: a node that has another node as its successor never
becomes its own successor again.

`wellFormed_run` is the statement for all runs of a new node. Its first program is its one call of
`join`. Without a bootstrap address this call makes the node its own successor, so it must come
first. With one, the other tasks may already run meanwhile.
-/

set_option autoImplicit false

namespace TaceChat

/-- The predecessor is another node, and the two tables have their sizes. -/
structure ChordNode.WellFormed (n : ChordNode) : Prop where
  predecessor : ∀ p, n.predecessor = some p → p.id ≠ n.info.id
  successorList : n.successorList.length = successorListSize
  fingerTable : n.fingerTable.length = M

/-- The node with the info, well-formed. -/
def WellFormedAs (info : NodeInfo) (n : ChordNode) : Prop := n.info = info ∧ n.WellFormed

/-- A successor that is not the node itself is followed by such successors only. -/
def StaysLinked (info : NodeInfo) (n n' : ChordNode) : Prop :=
  n.successor.id ≠ info.id → n'.successor.id ≠ info.id

section Rules

variable {info : NodeInfo}

/-- One change after another. -/
theorem StaysLinked.trans {n n' n'' : ChordNode} (h : StaysLinked info n n')
    (h' : StaysLinked info n' n'') : StaysLinked info n n'' := fun hn => h' (h hn)

/-- Another node has another id than the node of the invariant. -/
theorem Foreign.ne {x : NodeInfo} (h : Foreign (WellFormedAs info) x) : x.id ≠ info.id := by
  obtain ⟨n, ⟨hinfo, -⟩, hne⟩ := h
  rwa [hinfo] at hne

/-- Every kind of write keeps a node well-formed and linked. -/
theorem wellFormed_taskRules (info : NodeInfo) :
    TaskRules (WellFormedAs info) (StaysLinked info) where
  refl _ := id
  trans _ _ _ h h' := h.trans h'
  extendKey _ _ _ hn := ⟨⟨hn.1, hn.2.predecessor, hn.2.successorList, hn.2.fingerTable⟩, id⟩
  removeKey _ _ _ hn := ⟨⟨hn.1, hn.2.predecessor, hn.2.successorList, hn.2.fingerTable⟩, id⟩
  setSuccessor x hx _ hn :=
    ⟨⟨hn.1, hn.2.predecessor, hn.2.successorList, hn.2.fingerTable⟩, fun _ => hx.ne⟩
  setSuccessorList _ hlength _ hn :=
    ⟨⟨hn.1, hn.2.predecessor, hlength, hn.2.fingerTable⟩, id⟩
  setPredecessor p hp n hn := by
    refine ⟨⟨hn.1, ?_, hn.2.successorList, hn.2.fingerTable⟩, id⟩
    intro x hx
    show x.id ≠ n.info.id
    rw [hn.1]
    exact (hp x hx).ne
  setFinger i x n hn := by
    refine ⟨⟨hn.1, hn.2.predecessor, hn.2.successorList, ?_⟩, id⟩
    show (n.fingerTable.set i x).length = M
    rw [List.length_set]
    exact hn.2.fingerTable
  setMetrics _ _ hn := ⟨⟨hn.1, hn.2.predecessor, hn.2.successorList, hn.2.fingerTable⟩, id⟩
  updateNodeLoad _ _ _ hn := ⟨⟨hn.1, hn.2.predecessor, hn.2.successorList, hn.2.fingerTable⟩, id⟩

/-- The start of a new network, on a node that is its own successor. -/
theorem startNewNetwork_spec :
    Concurrent.startNewNetwork.Spec (fun n => WellFormedAs info n ∧ n.successor.id = info.id)
      (StaysLinked info) fun _ => True := by
  have hwrite {update : ChordNode → ChordNode}
      (h : ∀ n, WellFormedAs info n → n.successor.id = info.id →
        WellFormedAs info (update n) ∧ (update n).successor.id = info.id) :
      (Prog.write update : NodeProg Unit).Spec
        (fun n => WellFormedAs info n ∧ n.successor.id = info.id) (StaysLinked info)
        fun _ => True := by
    intro n hn
    exact ⟨h n hn.1 hn.2, fun hne => absurd hn.2 hne, trivial⟩
  refine (hwrite ?_).next fun _ => (hwrite ?_).next fun _ => hwrite ?_
  · intro n hn _
    exact ⟨⟨hn.1, hn.2.predecessor, hn.2.successorList, hn.2.fingerTable⟩,
      congrArg NodeInfo.id hn.1⟩
  · intro n hn hself
    exact ⟨⟨hn.1, hn.2.predecessor, List.length_replicate, hn.2.fingerTable⟩, hself⟩
  · intro n hn hself
    exact ⟨⟨hn.1, (by rintro x ⟨⟩), hn.2.successorList, hn.2.fingerTable⟩, hself⟩

end Rules

/-- A new node is well-formed. -/
theorem wellFormed_new (sha1 : List UInt8 → NodeId) (address apiAddress : String) :
    (ChordNode.new sha1 address apiAddress).WellFormed where
  predecessor := by rintro p ⟨⟩
  successorList := List.length_replicate
  fingerTable := List.length_replicate

/-- The one call of `join` is the first program of the pool. No task calls it again, and without a
bootstrap address nothing else happens before it has ended. -/
def JoinsOnce (bootstrapAddress : Option String)
    (pool : Pool ChordNode (String × DhtMessage) (Option DhtMessage))
    (event : PoolEvent NodeTask (Option DhtMessage)) : Prop :=
  (∀ again, event ≠ .start (.join again)) ∧ (bootstrapAddress = none → pool.FirstAlone event)

/-- In every run of a new node that joins once and first, in any interleaving and with any replies,
every state is well-formed, and once the successor is another node it is another node in all later
states. -/
theorem wellFormed_run (sha1 : List UInt8 → NodeId) (address apiAddress : String)
    (bootstrapAddress : Option String)
    (events later : List (PoolEvent NodeTask (Option DhtMessage)))
    (hjoin : Pool.Along NodeTask.prog (JoinsOnce bootstrapAddress)
      ⟨ChordNode.new sha1 address apiAddress, [Concurrent.join bootstrapAddress]⟩
      (events ++ later)) :
    let run := Pool.run NodeTask.prog
      ⟨ChordNode.new sha1 address apiAddress, [Concurrent.join bootstrapAddress]⟩
    (run events).state.WellFormed ∧
      ((run events).state.successor.id ≠ (run events).state.info.id →
        (run (events ++ later)).state.successor.id ≠ (run (events ++ later)).state.info.id) := by
  intro run
  let info := (ChordNode.new sha1 address apiAddress).info
  have hrules := wellFormed_taskRules info
  have hnew : WellFormedAs info (ChordNode.new sha1 address apiAddress) :=
    ⟨rfl, wellFormed_new sha1 address apiAddress⟩
  have htask {pool : Pool ChordNode (String × DhtMessage) (Option DhtMessage)}
      {event : PoolEvent NodeTask (Option DhtMessage)} (hok : JoinsOnce bootstrapAddress pool event)
      (task : NodeTask) (heq : event = .start task) :
      task.prog.Spec (WellFormedAs info) (StaysLinked info) fun _ => True := by
    refine hrules.task ?_
    rintro rfl
    exact hok.1 none heq
  obtain ⟨hbefore, hafter, hlinked⟩ : WellFormedAs info (run events).state ∧
      WellFormedAs info (run (events ++ later)).state ∧
        StaysLinked info (run events).state (run (events ++ later)).state := by
    cases bootstrapAddress with
    | none =>
      -- The join is alone with a node that is its own successor.
      have hstart : Pool.Starting (WellFormedAs info)
          (fun n => WellFormedAs info n ∧ n.successor.id = info.id) (StaysLinked info)
          ⟨ChordNode.new sha1 address apiAddress, [Concurrent.join none]⟩ :=
        Or.inr ⟨_, rfl, ⟨hnew, rfl⟩, startNewNetwork_spec⟩
      obtain ⟨hJ, hJ', hR⟩ := Pool.Along.run_later hrules.refl hrules.trans
        (fun pool event h hok => h.step hrules.refl (fun _ hJ => hJ.1) (hok.2 rfl) (htask hok))
        hstart hjoin
      exact ⟨hJ.state fun _ h => h.1, hJ'.state fun _ h => h.1, hR⟩
    | some bootstrap =>
      have hstart : Pool.Safe (WellFormedAs info) (StaysLinked info)
          ⟨ChordNode.new sha1 address apiAddress, [Concurrent.join (some bootstrap)]⟩ := by
        refine ⟨hnew, ?_⟩
        intro p hp
        rw [List.mem_singleton.mp hp]
        exact hrules.join bootstrap
      obtain ⟨hI, hI', hR⟩ := Pool.Along.run_later hrules.refl hrules.trans
        (fun pool event h hok => h.step hrules.refl (htask hok)) hstart hjoin
      exact ⟨hI.state, hI'.state, hR⟩
  refine ⟨hbefore.2, ?_⟩
  rw [hbefore.1, hafter.1]
  exact hlinked

/-- `wellFormed_run` for a node that joins at another one, whose next call then fails. -/
theorem wellFormed_run_joined :
    let run := Pool.run NodeTask.prog
      ⟨ChordNode.new (fun _ => biguintToNodeId 20) "a" "a", [Concurrent.join (some "b")]⟩
    let events := [.advance 0 none,
      .advance 0 (some (.foundSuccessor (biguintToNodeId 10) "b" "b")), .advance 0 none]
    let later := [.start .stabilize, .advance 1 none, .advance 1 none]
    (run events).state.WellFormed ∧
      (run (events ++ later)).state.successor.id ≠ (run (events ++ later)).state.info.id := by
  intro run events later
  obtain ⟨hwell, hlinked⟩ := wellFormed_run (fun _ => biguintToNodeId 20) "a" "a" (some "b") events
    later (by simp [events, later, Pool.Along, JoinsOnce])
  refine ⟨hwell, hlinked ?_⟩
  show biguintToNodeId 10 ≠ biguintToNodeId 20
  decide

end TaceChat
