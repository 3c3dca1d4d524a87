import TaceChat.Library.Contracts
import TaceChat.Model.Config
import TaceChat.Proofs.KnownNodes
import TaceChat.Proofs.ReadOnly

/-!
# A node among the infos that it holds

A node recognizes itself by its id. `KnowsItself` says that this never goes wrong: every info with
the node's own address has the node's own id.

The contract of the operations is the same for their infos (`OwnIdOnly`): an info that the node
holds or gets from another node has the own address with the own id only. Then no request goes to
the own address, because each caller has compared the ids first. It holds when the node starts with
it.

A node whose id was put in the place of the generated one does not start with it. Its fingers still
have the generated id, and the first of them is never written (`firstFinger_run`).
-/

set_option autoImplicit false

namespace TaceChat

/-- Every info with the own address has the own id. -/
def ChordNode.KnowsItself (n : ChordNode) : Prop :=
  ∀ x ∈ n.successor :: n.successorList ++ n.fingerTable, x.address = n.info.address →
    x.id = n.info.id

/-- The info that a reply reports. -/
def DhtMessage.reported : DhtMessage → Option NodeInfo
  | .foundSuccessor id address apiAddress => some ⟨id, address, apiAddress⟩
  | .foundPredecessor id address apiAddress => some ⟨id, address, apiAddress⟩
  | .foundClosestPrecedingNode id address apiAddress => some ⟨id, address, apiAddress⟩
  | .predecessor (some id) (some address) (some apiAddress) => some ⟨id, address, apiAddress⟩
  | _ => none

section Contract

variable (info : NodeInfo)

/-- It has the id of the info if it has its address. -/
def OwnIdOnly (x : NodeInfo) : Prop := x.address = info.address → x.id = info.id

/-- A node that holds such infos only. -/
def HoldsOwnId (n : ChordNode) : Prop := n.info = info ∧ Reports (OwnIdOnly info) n

/-- The request goes to another node. -/
def ToOther (message : String × DhtMessage) : Prop := message.1 ≠ info.address

/-- The other nodes report such infos only. -/
def CorrectIds (message : String × DhtMessage) (reply : Option DhtMessage) : Prop :=
  message.1 ≠ info.address → ∀ r x, reply = some r → r.reported = some x → OwnIdOnly info x

/-- The contract of an operation of the node. -/
abbrev Correct {α : Type} (p : NodeProg α) (Q : α → Prop) : Prop :=
  p.Meets (HoldsOwnId info) (ToOther info) (CorrectIds info) Q

end Contract

namespace Concurrent

open Prog

variable {info : NodeInfo}

/-- A node with another id is at another address. -/
theorem toOther {x : NodeInfo} (hx : OwnIdOnly info x) {n : ChordNode} (hn : HoldsOwnId info n)
    (hne : x.id ≠ n.info.id) (m : DhtMessage) : ToOther info (x.address, m) := by
  intro heq
  rw [hn.1] at hne
  exact hne (hx heq)

/-! ### Lookups -/

/-- The next node of the walk. -/
theorem nextNode_correct (id : NodeId) {nPrime : NodeInfo} (hn : OwnIdOnly info nPrime) :
    Correct info (nextNode id nPrime) fun next => ∀ x, next = some x → OwnIdOnly info x := by
  refine Meets.read_next ?_
  intro self hself
  split
  · rintro x ⟨⟩
    exact hself.2.closestPrecedingNode id
  · next hne =>
    have hother := toOther hn hself hne (.closestPrecedingNode id)
    refine Meets.ask_next hother ?_
    intro r hr
    split
    · rintro x ⟨⟩
      exact hr hother _ _ rfl rfl
    · rintro x ⟨⟩

/-- The successor of a node of the walk is not held, only compared. -/
theorem successorOf_correct {nPrime : NodeInfo} (hn : OwnIdOnly info nPrime) :
    Correct info (successorOf nPrime) fun _ => True := by
  refine Meets.read_next ?_
  intro self hself
  split
  · trivial
  · next hne =>
    refine Meets.ask_next (toOther hn hself hne _) ?_
    intro r _
    split
    · trivial
    · trivial

/-- The loop of `find_predecessor`, by induction on its retries. -/
theorem findPredecessorLoop_correct (id : NodeId) (retries : ℕ) :
    ∀ {nPrime : NodeInfo} (successor : NodeInfo), OwnIdOnly info nPrime →
      Correct info (findPredecessorLoop id retries nPrime successor) (OwnIdOnly info) := by
  induction retries with
  | zero =>
    intro nPrime successor hn
    unfold findPredecessorLoop
    split
    · exact hn
    · exact hn
  | succ retries ih =>
    intro nPrime successor hn
    unfold findPredecessorLoop
    split
    · exact hn
    · refine (nextNode_correct id hn).bind ?_
      intro next hnext
      cases next with
      | none => exact hn
      | some next =>
        -- The walk goes on at an info that was reported.
        have hnext := hnext next rfl
        dsimp only
        split
        · exact hn
        · refine (successorOf_correct hnext).bind ?_
          intro successor _
          cases successor with
          | none => exact hnext
          | some successor => exact ih successor hnext

/-- `find_predecessor` keeps to the contract. -/
theorem findPredecessor_correct (id : NodeId) :
    Correct info (findPredecessor id) (OwnIdOnly info) := by
  refine Meets.read_next ?_
  intro self hself
  exact findPredecessorLoop_correct id maxRetries _ hself.2.info

/-- The search for a reachable successor, by induction on the list. -/
theorem firstReachable_correct {nodes : List NodeInfo} (hnodes : ∀ x ∈ nodes, OwnIdOnly info x) :
    Correct info (firstReachable nodes) fun found => ∀ x, found = some x → OwnIdOnly info x := by
  induction nodes with
  | nil => rintro x ⟨⟩
  | cons successor rest ih =>
    have hrest := ih fun x hx => hnodes x (List.mem_cons_of_mem _ hx)
    have hsuccessor := hnodes successor List.mem_cons_self
    refine Meets.read_next ?_
    intro self hself
    split
    · exact hrest
    · next hne =>
      refine Meets.ask_next (toOther hsuccessor hself hne _) ?_
      intro r _
      split
      · rintro x ⟨⟩
        exact hsuccessor
      · exact hrest

/-- `find_successor` keeps to the contract. -/
theorem findSuccessor_correct (id : NodeId) :
    Correct info (findSuccessor id) (OwnIdOnly info) := by
  refine (findPredecessor_correct id).bind ?_
  intro predecessor hpredecessor
  refine Meets.read_next ?_
  intro self hself
  split
  · exact hself.2.successor
  · next hne =>
    have hother := toOther hpredecessor hself hne .getSuccessor
    refine Meets.ask_next hother ?_
    intro r hr
    split
    · exact hr hother _ _ rfl rfl
    · -- The predecessor did not answer, so the node falls back on its own successors.
      refine (Meets.read_next fun now hnow => firstReachable_correct hnow.2.successorList).bind ?_
      intro next hnext
      cases next with
      | none => exact Meets.read_next fun now hnow => hnow.2.successor
      | some next => exact hnext next rfl

/-- The node itself has its own id. -/
theorem findSuccessorWithVirtualNodes_correct (key : NodeId) :
    Correct info (findSuccessorWithVirtualNodes key) (OwnIdOnly info) := by
  refine Meets.read_next ?_
  intro self hself
  split
  · exact hself.2.info
  · exact findSuccessor_correct key

/-! ### Writes -/

/-- The infos are read one after the other, each from a state that holds correct ones. -/
theorem getReplicaNodes_correct (key : NodeId) :
    Correct info (getReplicaNodes key) fun nodes => ∀ x ∈ nodes, OwnIdOnly info x := by
  refine (findSuccessorWithVirtualNodes_correct key).bind ?_
  intro primary hprimary
  refine Meets.read_next fun first hfirst => Meets.read_next fun second hsecond =>
    Meets.read_next fun self hself => ?_
  intro x hx
  rcases List.mem_cons.mp hx with rfl | hx
  · exact hprimary
  · have hreports : Reports (OwnIdOnly info)
        { self with successorList := first.successorList, fingerTable := second.fingerTable } :=
      ⟨hself.2.info, hself.2.successor, hfirst.2.successorList, hself.2.predecessor,
        hsecond.2.fingerTable⟩
    exact hreports.replicaCandidates primary x (List.mem_of_mem_take hx)

/-- A replication request goes to another node. -/
theorem replicateTo_correct (key : NodeId) (values : List Value) (i : ℕ) {node : NodeInfo}
    (hnode : OwnIdOnly info node) : Correct info (replicateTo key values i node) fun _ => True := by
  refine Meets.read_next ?_
  intro self hself
  split
  · trivial
  · next hne =>
    refine Meets.discard ⟨toOther hnode hself hne _, ?_⟩
    intro r _
    trivial

/-- Data holds no info. -/
theorem extendKey_correct (key : NodeId) (values : List Value) :
    Correct info (write fun n => n.extendKey key values) fun _ => True :=
  meets_write fun _ hn => ⟨hn.1, hn.2.info, hn.2.successor, hn.2.successorList, hn.2.predecessor,
    hn.2.fingerTable⟩

/-- `store` keeps to the contract. -/
theorem store_correct (key : NodeId) (value : Value) :
    Correct info (store key value) fun _ => True := by
  refine (extendKey_correct key [value]).bind ?_
  intro _ _
  refine (getReplicaNodes_correct key).bind ?_
  intro nodes hnodes
  refine Meets.forM ?_
  intro p hp
  exact replicateTo_correct key [value] p.2 (hnodes p.1 (List.fst_mem_of_mem_zipIdx hp))

/-- The pointers of the first node are its own info. -/
theorem createNetwork_correct : Correct info createNetwork fun _ => True := by
  have hsuccessor : Correct info (write fun n => { n with successor := n.info }) fun _ => True :=
    meets_write fun _ hn => ⟨hn.1, hn.2.info, hn.2.info, hn.2.successorList, hn.2.predecessor,
      hn.2.fingerTable⟩
  refine hsuccessor.bind fun _ _ => Meets.bind (P := fun _ => True) (meets_write ?_) fun _ _ =>
    meets_write ?_
  · intro n hn
    refine ⟨hn.1, hn.2.info, hn.2.successor, ?_, hn.2.predecessor, hn.2.fingerTable⟩
    intro x hx
    rw [List.eq_of_mem_replicate hx]
    exact hn.2.info
  · intro n hn
    refine ⟨hn.1, hn.2.info, hn.2.successor, hn.2.successorList, ?_, hn.2.fingerTable⟩
    rintro x ⟨⟩

/-- The finger that is written was found by a lookup. -/
theorem fixFingers_correct (i : ℕ) : Correct info (fixFingers i) fun _ => True := by
  refine Meets.read_next ?_
  intro self _
  refine (findSuccessor_correct _).bind ?_
  intro successor hsuccessor
  refine meets_write ?_
  intro n hn
  refine ⟨hn.1, hn.2.info, hn.2.successor, hn.2.successorList, hn.2.predecessor, ?_⟩
  intro x hx
  rcases List.mem_or_eq_of_mem_set hx with hx | rfl
  · exact hn.2.fingerTable x hx
  · exact hsuccessor

end Concurrent

/-! ### Runs -/

/-- The operations of the runs: `create_network`, `store`, whether a peer asks for it or a message
was posted, the handler of a replication, and `fix_fingers`, which draws its number from `1..M`. -/
inductive LocalTask : NodeTask → Prop
  | createNetwork : LocalTask (.join none)
  | store (key : NodeId) (value : Value) : LocalTask (.connection (.store key value))
  | post (key : NodeId) (serialized : Value) : LocalTask (.postMessage key serialized)
  | replicate (key : NodeId) (values : List Value) (replicaId : UInt8) :
    LocalTask (.connection (.replicateData key values replicaId))
  | fixFingers (i : ℕ) (hone : 1 ≤ i) (hM : i < M) : LocalTask (.fixFingers i)

/-- Every operation of the runs keeps to the contract. -/
theorem LocalTask.correct {info : NodeInfo} {task : NodeTask} (h : LocalTask task) :
    Correct info task.prog fun _ => True := by
  cases h with
  | createNetwork => exact Concurrent.createNetwork_correct
  | store key value =>
    refine Prog.Meets.discard (Prog.Meets.bind (P := fun _ => True) ?_ fun _ _ => trivial)
    exact Concurrent.store_correct key value
  | post key serialized =>
    refine (Concurrent.findSuccessor_correct key).bind ?_
    intro responsible hresponsible
    refine Prog.Meets.read_next ?_
    intro self hself
    split
    · exact Concurrent.store_correct key serialized
    · next hne =>
      refine Prog.Meets.discard ⟨Concurrent.toOther hresponsible hself hne _, ?_⟩
      intro r _
      trivial
  | replicate key values replicaId =>
    refine Prog.Meets.discard (Prog.Meets.bind (P := fun _ => True) ?_ fun _ _ => trivial)
    exact (Concurrent.extendKey_correct key values).bind fun _ _ => trivial
  | fixFingers i _ _ => exact Concurrent.fixFingers_correct i

/-- An event of these runs: only the operations start, and every other node reports correct ids. -/
def LocalRun (info : NodeInfo) (pool : Pool ChordNode (String × DhtMessage) (Option DhtMessage))
    (event : PoolEvent NodeTask (Option DhtMessage)) : Prop :=
  (∀ task, event = .start task → LocalTask task) ∧ Pool.Answered (CorrectIds info) pool event

/-- The first finger is `x`, and the node has the info. -/
def FirstFinger (info x : NodeInfo) (n : ChordNode) : Prop :=
  n.info = info ∧ n.fingerTable.head? = some x

/-- No operation writes the first finger. -/
theorem LocalTask.firstFinger {info x : NodeInfo} {task : NodeTask} (h : LocalTask task) :
    task.prog.Spec (FirstFinger info x) (fun _ _ => True) fun _ => True := by
  have hwrite {update : ChordNode → ChordNode} (hinfo : ∀ n, (update n).info = n.info)
      (hfinger : ∀ n, (update n).fingerTable.head? = n.fingerTable.head?) :
      (Prog.write update : NodeProg Unit).Spec (FirstFinger info x) (fun _ _ => True)
        fun _ => True := by
    intro n hn
    exact ⟨⟨(hinfo n).trans hn.1, (hfinger n).trans hn.2⟩, trivial, trivial⟩
  have hstore (key : NodeId) (value : Value) :
      (Concurrent.store key value).Spec (FirstFinger info x) (fun _ _ => True) fun _ => True :=
    (hwrite (fun _ => rfl) fun _ => rfl).next fun _ =>
      (Concurrent.reads_replicateData key [value]).spec fun _ => trivial
  cases h with
  | createNetwork =>
    exact (hwrite (fun _ => rfl) fun _ => rfl).next fun _ =>
      (hwrite (fun _ => rfl) fun _ => rfl).next fun _ => hwrite (fun _ => rfl) fun _ => rfl
  | store key value => exact Prog.Spec.discard ((hstore key value).next fun _ => trivial)
  | post key serialized =>
    refine ((Concurrent.reads_findSuccessor key).spec fun _ => trivial).next fun _ =>
      Prog.Spec.read_next (fun _ => trivial) fun _ _ => ?_
    split
    · exact hstore key serialized
    · exact (Prog.spec_ask _).discard
  | replicate key values replicaId =>
    refine Prog.Spec.discard (Prog.Spec.next ?_ fun _ => trivial)
    exact (hwrite (fun _ => rfl) fun _ => rfl).next fun _ => trivial
  | fixFingers i hone _ =>
    refine Prog.Spec.read_next (fun _ => trivial) fun _ _ =>
      ((Concurrent.reads_findSuccessor _).spec fun _ => trivial).next fun successor => ?_
    refine hwrite (fun _ => rfl) fun n => ?_
    show (n.fingerTable.set i successor).head? = n.fingerTable.head?
    rw [List.head?_eq_getElem?, List.head?_eq_getElem?, List.getElem?_set_ne (by omega)]

/-! ### Nodes from their constructors -/

/-- The id of the constructed node is the one that `new` generates, because no id is given or
because the given one is the same. -/
def Construction.KeepsGeneratedId (sha1 : List UInt8 → NodeId) (c : Construction) : Prop :=
  ∀ nodeId, c.nodeId = some nodeId → nodeId = ChordNode.generateNodeId sha1 c.address

/-- What the constructors make: every info is the one with the generated id, but the own one has the
id that is given. -/
theorem Construction.node_fields (sha1 : List UInt8 → NodeId) (c : Construction) :
    ∃ old : NodeInfo, old.id = ChordNode.generateNodeId sha1 c.address ∧ old.address = c.address ∧
      (c.node sha1).info = { old with id := c.nodeId.getD old.id } ∧
      (c.node sha1).successor = old ∧
      (c.node sha1).successorList = List.replicate successorListSize old ∧
      (c.node sha1).predecessor = none ∧ (c.node sha1).fingerTable = List.replicate M old := by
  cases c with
  | new address apiAddress =>
    exact ⟨⟨ChordNode.generateNodeId sha1 address, address, apiAddress⟩, rfl, rfl, rfl, rfl, rfl,
      rfl, rfl⟩
  | newWithClient nodeId p2pAddress apiAddress =>
    exact ⟨⟨ChordNode.generateNodeId sha1 p2pAddress, p2pAddress, apiAddress⟩, rfl, rfl, rfl, rfl,
      rfl, rfl, rfl⟩
  | fromConfig config =>
    obtain ⟨p2pAddress, apiAddress, nodeId⟩ := config
    refine ⟨⟨ChordNode.generateNodeId sha1 p2pAddress, p2pAddress, apiAddress⟩, rfl, rfl, ?_⟩
    cases nodeId with
    | none => exact ⟨rfl, rfl, rfl, rfl, rfl⟩
    | some nodeId => exact ⟨rfl, rfl, rfl, rfl, rfl⟩

/-- A constructed node holds its own id only, when it keeps the generated one. -/
theorem Construction.holdsOwnId {sha1 : List UInt8 → NodeId} {c : Construction}
    (h : c.KeepsGeneratedId sha1) : HoldsOwnId (c.node sha1).info (c.node sha1) := by
  obtain ⟨old, hid, -, hinfo, hsucc, hlist, hpred, hfingers⟩ := c.node_fields sha1
  have hown : c.nodeId.getD old.id = old.id := by
    cases hnode : c.nodeId with
    | none => rfl
    | some nodeId => exact (h nodeId hnode).trans hid.symm
  have hold : OwnIdOnly (c.node sha1).info old := by
    intro _
    rw [hinfo]
    exact hown.symm
  refine ⟨rfl, fun _ => rfl, ?_, ?_, ?_, ?_⟩
  · rw [hsucc]
    exact hold
  · intro x hx
    rw [hlist] at hx
    rw [List.eq_of_mem_replicate hx]
    exact hold
  · intro x hx
    rw [hpred] at hx
    cases hx
  · intro x hx
    rw [hfingers] at hx
    rw [List.eq_of_mem_replicate hx]
    exact hold

/-- In every run the first finger is the one that the constructor has made. -/
theorem firstFinger_run {sha1 : List UInt8 → NodeId} {c : Construction} {old : NodeInfo}
    (hold : (c.node sha1).fingerTable.head? = some old)
    {events : List (PoolEvent NodeTask (Option DhtMessage))}
    (hlocal : Pool.Along NodeTask.prog (LocalRun (c.node sha1).info) ⟨c.node sha1, []⟩ events) :
    FirstFinger (c.node sha1).info old (Pool.run NodeTask.prog ⟨c.node sha1, []⟩ events).state := by
  have hstart : Pool.Safe (FirstFinger (c.node sha1).info old) (fun _ _ => True)
      (⟨c.node sha1, []⟩ : Pool ChordNode (String × DhtMessage) (Option DhtMessage)) :=
    ⟨⟨rfl, hold⟩, by rintro p ⟨⟩⟩
  exact (Pool.Along.run (fun _ => trivial) (fun _ _ _ _ _ => trivial)
    (fun pool event h hok => h.step (fun _ => trivial) fun task heq => (hok.1 task heq).firstFinger)
    hstart hlocal).1.state

/-- In every run of the operations among nodes that report correct ids: the node knows itself and
sends no `ReplicateData` request to its own address, exactly when no other id than the generated one
was put in its place. -/
theorem knowsItself_iff (sha1 : List UInt8 → NodeId) (c : Construction)
    (events : List (PoolEvent NodeTask (Option DhtMessage)))
    (hlocal : Pool.Along NodeTask.prog (LocalRun (c.node sha1).info) ⟨c.node sha1, []⟩ events) :
    let pool := Pool.run NodeTask.prog ⟨c.node sha1, []⟩ events
    (pool.state.KnowsItself ∧ ∀ i key values replicaId,
      pool.pendingAt i ≠ some (pool.state.info.address, .replicateData key values replicaId)) ↔
        c.KeepsGeneratedId sha1 := by
  intro pool
  obtain ⟨old, hid, haddress, hinfo, -, -, -, hfingers⟩ := c.node_fields sha1
  constructor
  · rintro ⟨hknows, -⟩ nodeId hnode
    have hhead : (c.node sha1).fingerTable.head? = some old := by
      rw [hfingers]
      rfl
    obtain ⟨hself, hfirst⟩ := firstFinger_run hhead hlocal
    have hmem : old ∈ pool.state.successor :: pool.state.successorList ++ pool.state.fingerTable :=
      List.mem_append_right _ (List.mem_of_mem_head? hfirst)
    -- The first finger has the own address and the generated id.
    have hsame : old.id = pool.state.info.id := by
      refine hknows old hmem ?_
      rw [hself, hinfo]
    rw [hself, hinfo, hnode] at hsame
    rw [← hid]
    exact hsame.symm
  · intro hkeeps
    have hstart : Pool.Meeting (HoldsOwnId (c.node sha1).info) (ToOther (c.node sha1).info)
        (CorrectIds (c.node sha1).info)
        (⟨c.node sha1, []⟩ : Pool ChordNode (String × DhtMessage) (Option DhtMessage)) :=
      ⟨Construction.holdsOwnId hkeeps, by rintro p ⟨⟩⟩
    have hmeeting := (Pool.Along.run (R := fun _ _ => True) (fun _ => trivial)
      (fun _ _ _ _ _ => trivial)
      (fun pool event h hok => ⟨h.step hok.2 fun task heq => (hok.1 task heq).correct, trivial⟩)
      hstart hlocal).1
    obtain ⟨hself, hreports⟩ := hmeeting.state
    constructor
    · intro x hx haddr
      have hx' : OwnIdOnly (c.node sha1).info x := by
        rcases List.mem_append.mp hx with hx | hx
        · rcases List.mem_cons.mp hx with rfl | hx
          · exact hreports.successor
          · exact hreports.successorList x hx
        · exact hreports.fingerTable x hx
      rw [hself] at haddr ⊢
      exact hx' haddr
    · intro i key values replicaId hpending
      refine hmeeting.of_pending hpending ?_
      exact congrArg NodeInfo.address hself

/-! ### One store -/

/-- A request for a store, and the first steps of its handler. -/
def storing (k : ℕ) : List (PoolEvent NodeTask (Option DhtMessage)) :=
  .start (.connection (.store (biguintToNodeId 20) [1])) :: List.replicate k (.advance 0 none)

/-- A hash function with one value. -/
def sha1Of20 : List UInt8 → NodeId := fun _ => biguintToNodeId 20

/-- The pool of a constructed node in the middle of the store. -/
def storingPool (c : Construction) (k : ℕ) :
    Pool ChordNode (String × DhtMessage) (Option DhtMessage) :=
  Pool.run NodeTask.prog ⟨c.node sha1Of20, []⟩ (storing k)

/-- As long as no request is pending, no reply is needed. -/
theorem along_storing (c : Construction) {k : ℕ}
    (hnone : ∀ j < k, (storingPool c j).pendingAt 0 = none) :
    Pool.Along NodeTask.prog (LocalRun (c.node sha1Of20).info) ⟨c.node sha1Of20, []⟩
      (storing k) := by
  induction k with
  | zero =>
    refine ⟨⟨?_, ?_⟩, trivial⟩
    · rintro task ⟨⟩
      exact .store _ _
    · intro i reply message heq
      cases heq
  | succ k ih =>
    have hsplit : storing (k + 1) = storing k ++ [.advance 0 none] := by
      rw [storing, List.replicate_succ']
      rfl
    rw [hsplit, Pool.along_append]
    refine ⟨ih fun j hj => hnone j (by omega), ⟨?_, ?_⟩, trivial⟩
    · rintro task ⟨⟩
    · rintro i reply message ⟨⟩ hpending
      have hk : (storingPool c k).pendingAt 0 = some message := hpending
      rw [hnone k (by omega)] at hk
      cases hk

/-- `knowsItself_iff` for a node with its generated id, in the middle of a store. -/
theorem knowsItself_iff_storing :
    let pool := storingPool (.new "a" "a") 6
    pool.state.KnowsItself ∧ ∀ i key values replicaId,
      pool.pendingAt i ≠ some (pool.state.info.address, .replicateData key values replicaId) := by
  refine (knowsItself_iff sha1Of20 (.new "a" "a") (storing 6) (along_storing _ ?_)).mpr ?_
  · decide +kernel
  · rintro nodeId ⟨⟩

/-- The node 20 under the id 10. -/
def clientNode : Construction := .newWithClient (biguintToNodeId 10) "a" "a"

/-- After six steps the store sends the value to the first finger, which has the own address. -/
theorem clientNode_storing : (∀ j < 7, (storingPool clientNode j).pendingAt 0 = none) ∧
    (storingPool clientNode 7).pendingAt 0 = some ((storingPool clientNode 7).state.info.address,
      .replicateData (biguintToNodeId 20) [[1]] 2) := by
  decide +kernel

/-- A client gives the node 20 the id 10. The node holds its address under the id 20 from the start,
and sends the values of a store to itself. -/
theorem not_knowsItself :
    ¬(∀ (sha1 : List UInt8 → NodeId) (c : Construction)
        (events : List (PoolEvent NodeTask (Option DhtMessage))),
        Pool.Along NodeTask.prog (LocalRun (c.node sha1).info) ⟨c.node sha1, []⟩ events →
        (Pool.run NodeTask.prog ⟨c.node sha1, []⟩ events).state.KnowsItself) ∧
      ¬(∀ (sha1 : List UInt8 → NodeId) (c : Construction)
        (events : List (PoolEvent NodeTask (Option DhtMessage))),
        Pool.Along NodeTask.prog (LocalRun (c.node sha1).info) ⟨c.node sha1, []⟩ events →
        let pool := Pool.run NodeTask.prog ⟨c.node sha1, []⟩ events
        ∀ i key values replicaId,
          pool.pendingAt i ≠
            some (pool.state.info.address, .replicateData key values replicaId)) := by
  obtain ⟨hnone, hpending⟩ := clientNode_storing
  constructor
  · intro hall
    have hsame := hall sha1Of20 clientNode [] trivial (clientNode.node sha1Of20).successor
      (List.mem_append_left _ List.mem_cons_self) rfl
    exact absurd hsame (by decide +kernel)
  · intro hall
    exact hall sha1Of20 clientNode (storing 7) (along_storing clientNode hnone) 0 _ _ _ hpending

end TaceChat
