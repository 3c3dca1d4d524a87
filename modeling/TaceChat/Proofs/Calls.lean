import TaceChat.Model.Network

/-!
# Running operations and calls

The symbolic execution of the model. `returns_safeLock` and `returns_safeUpdate` run the two
accesses to a node's own state, and `returns_call_answered`, `returns_call_lost` run a call by
what its medium does. A request that only reads the called node is a row of `readReply`, and
`call_read` is its specification for every medium: the reply is `none` or the row, and no node
changes.
-/

set_option autoImplicit false

namespace TaceChat

section Env
variable {σ : Type} {env : NodeEnv σ} {w : σ}

/-- `safe_lock` returns the node's state and changes nothing. -/
@[simp] theorem returns_safeLock {Q : ChordNode → σ → Prop} :
    Returns env.safeLock w Q ↔ Q (env.node w) w := by
  simp [NodeEnv.safeLock]

/-- `safe_update` applies its function to the node's state. -/
@[simp] theorem returns_safeUpdate {f : ChordNode → ChordNode} {Q : Unit → σ → Prop} :
    Returns (env.safeUpdate f) w Q ↔ Q () (env.setNode (f (env.node w)) w) := by
  simp [NodeEnv.safeUpdate]

/-- The reply to a request that only reads the state of the node. -/
def readReply (n : ChordNode) : DhtMessage → Option DhtMessage
  | .getSuccessor =>
    some (.foundSuccessor n.successor.id n.successor.address n.successor.apiAddress)
  | .closestPrecedingNode id =>
    let cpn := n.closestPrecedingNode id
    some (.foundClosestPrecedingNode cpn.id cpn.address cpn.apiAddress)
  | .getPredecessor =>
    some (.predecessor (n.predecessor.map NodeInfo.id) (n.predecessor.map NodeInfo.address)
      (n.predecessor.map NodeInfo.apiAddress))
  | .ping => some .pong
  | .getDataRange start «end» => some (.dataRange (n.getDataRange start «end»))
  | .requestReplicas keyRangeStart keyRangeEnd =>
    some (.replicaData (n.handleRequestReplicas keyRangeStart keyRangeEnd))
  | _ => none

/-- The handler of a reading request replies with its row and changes nothing. -/
theorem returns_handleConnection_read {m r : DhtMessage} {Q : Option DhtMessage → σ → Prop}
    (h : readReply (env.node w) m = some r) :
    Returns (handleConnection env m) w Q ↔ Q (some r) w := by
  cases m <;> simp only [readReply.eq_def, reduceCtorEq, Option.some.injEq] at h <;> subst h <;>
    simp [handleConnection.eq_def]

end Env

namespace Network

variable {φ : Type} {medium : Medium φ} {depth : ℕ} {address : String} {m : DhtMessage}
  {net : Network φ}

/-- The same nodes at the same addresses, whatever the medium did. -/
def SameNodes (net net' : Network φ) : Prop :=
  net'.node = net.node ∧ net'.listening = net.listening

/-- A network has its own nodes. -/
@[simp] theorem SameNodes.refl (net : Network φ) : SameNodes net net := ⟨rfl, rfl⟩

/-- One change after another. -/
theorem SameNodes.trans {net net' net'' : Network φ} (h : SameNodes net net')
    (h' : SameNodes net' net'') : SameNodes net net'' :=
  ⟨h'.1.trans h.1, h'.2.trans h.2⟩

/-- Under a medium without a state, the same nodes are the same network. -/
theorem SameNodes.eq {net net' : Network Unit} (h : SameNodes net net') : net' = net := by
  obtain ⟨node, listening, _⟩ := net
  obtain ⟨node', listening', _⟩ := net'
  obtain ⟨rfl, rfl⟩ := h
  rfl

/-- The state of the node at the address of the environment. -/
@[simp] theorem env_node : (env medium depth address).node net = net.node address := rfl

/-- A call of the environment is one of the network. -/
@[simp] theorem env_callNode :
    (env medium depth address).callNode = call medium depth := rfl

/-- The environment writes the node at its own address. -/
@[simp] theorem env_setNode {n : ChordNode} :
    (env medium depth address).setNode n net = net.setNode address n := rfl

/-- The node that was set. -/
@[simp] theorem setNode_node_self {n : ChordNode} : (net.setNode address n).node address = n := by
  simp [setNode]

/-- The other nodes stay. -/
theorem setNode_node_of_ne {n : ChordNode} {a : String} (h : a ≠ address) :
    (net.setNode address n).node a = net.node a := by
  simp [setNode, h]

/-- Who listens does not depend on the states. -/
@[simp] theorem setNode_listening {n : ChordNode} :
    (net.setNode address n).listening = net.listening := rfl

/-- A write that changes nothing. -/
@[simp] theorem setNode_same : net.setNode address (net.node address) = net := by
  simp [setNode]

/-- The second write wins. -/
@[simp] theorem setNode_setNode {n n' : ChordNode} :
    (net.setNode address n).setNode address n' = net.setNode address n' := by
  simp [setNode]

/-- An answered call runs the handler of a listening node. -/
theorem returns_call_answered {Q : Option DhtMessage → Network φ → Prop}
    (hd : (medium net.medium address m).1 = .answered) (hl : net.listening address = true) :
    Returns (call medium (depth + 1) address m) net Q ↔
      Returns (handleConnection (env medium depth address) m)
        { net with medium := (medium net.medium address m).2 } Q := by
  simp [call, hd, hl, env]

/-- A call whose reply is lost runs the handler too. -/
theorem returns_call_replyLost {Q : Option DhtMessage → Network φ → Prop}
    (hd : (medium net.medium address m).1 = .replyLost) (hl : net.listening address = true) :
    Returns (call medium (depth + 1) address m) net Q ↔
      Returns (handleConnection (env medium depth address) m)
        { net with medium := (medium net.medium address m).2 } fun _ net' => Q none net' := by
  simp [call, hd, hl, env]

/-- A call that reaches no handler fails. -/
theorem returns_call_lost {Q : Option DhtMessage → Network φ → Prop}
    (h : (medium net.medium address m).1 = .notDelivered ∨ net.listening address = false) :
    Returns (call medium (depth + 1) address m) net Q ↔
      Q none { net with medium := (medium net.medium address m).2 } := by
  rcases h with h | h <;> simp [call, h]

/-- A call by the specification of its handler: what the handler guarantees for its reply must
also be guaranteed for a missing reply, and for a network the handler has not touched. -/
theorem returns_call_of_handler {Q : Option DhtMessage → Network φ → Prop}
    (hlost : ∀ s, Q none { net with medium := s })
    (hrun : ∀ s, Returns (handleConnection (env medium depth address) m)
      { net with medium := s } fun r net' => Q r net' ∧ Q none net') :
    Returns (call medium (depth + 1) address m) net Q := by
  cases hl : net.listening address with
  | false => exact (returns_call_lost (Or.inr hl)).mpr (hlost _)
  | true =>
    cases hd : (medium net.medium address m).1 with
    | answered =>
      exact (returns_call_answered hd hl).mpr ((hrun _).mono fun _ _ h => h.1)
    | notDelivered => exact (returns_call_lost (Or.inl hd)).mpr (hlost _)
    | replyLost =>
      exact (returns_call_replyLost hd hl).mpr ((hrun _).mono fun _ _ h => h.2)

/-- A reading call: no node changes, and the reply is missing or the one of `readReply`. -/
theorem call_read {r : DhtMessage} (h : readReply (net.node address) m = some r) :
    Returns (call medium (depth + 1) address m) net fun r' net' =>
      SameNodes net net' ∧ (r' = none ∨ r' = some r) := by
  refine returns_call_of_handler (fun s => ⟨⟨rfl, rfl⟩, Or.inl rfl⟩) fun s => ?_
  rw [returns_handleConnection_read (r := r) h]
  exact ⟨⟨⟨rfl, rfl⟩, Or.inr rfl⟩, ⟨rfl, rfl⟩, Or.inl rfl⟩

/-- The reply of a reading call comes from a listening node. -/
theorem call_read_listening {r : DhtMessage} (h : readReply (net.node address) m = some r) :
    Returns (call medium (depth + 1) address m) net fun r' net' =>
      SameNodes net net' ∧ (r' = none ∨ r' = some r ∧ net.listening address = true) := by
  cases hl : net.listening address with
  | false => exact (returns_call_lost (Or.inr hl)).mpr ⟨⟨rfl, rfl⟩, Or.inl rfl⟩
  | true =>
    refine (call_read h).mono ?_
    rintro r' net' ⟨hs, hr⟩
    exact ⟨hs, hr.imp_right fun heq => ⟨heq, rfl⟩⟩

/-- A reading call that is answered. -/
theorem call_read_answered {r : DhtMessage} {Q : Option DhtMessage → Network φ → Prop}
    (h : readReply (net.node address) m = some r)
    (hd : (medium net.medium address m).1 = .answered) (hl : net.listening address = true) :
    Returns (call medium (depth + 1) address m) net Q ↔
      Q (some r) { net with medium := (medium net.medium address m).2 } := by
  have hread : Returns (handleConnection (env medium depth address) m)
      { net with medium := (medium net.medium address m).2 } Q ↔
        Q (some r) { net with medium := (medium net.medium address m).2 } :=
    returns_handleConnection_read h
  rw [returns_call_answered hd hl]
  exact hread

/-- Under the reliable medium a call to a listening node is its handler. -/
theorem returns_call_reliable {net : Network Unit} {Q : Option DhtMessage → Network Unit → Prop}
    (hl : net.listening address = true) :
    Returns (call reliable (depth + 1) address m) net Q ↔
      Returns (handleConnection (env reliable depth address) m) net Q :=
  returns_call_answered rfl hl

end Network

end TaceChat
