import TaceChat.Proofs.KnownNodes

/-!
# What a store changes

Every write to a data map in a store is an append: at the node itself, and at each replica node
that a `ReplicateData` request reaches. `store_appends` lists the nodes that append, for every
medium. `DataWithin P` is the frame that follows: only data under keys that satisfy `P` changes.
-/

set_option autoImplicit false

namespace TaceChat

/-- The nodes after one of them has appended values under a key. -/
def appendAt (key : NodeId) (values : List Value) (nodes : String → ChordNode) (a : String) :
    String → ChordNode :=
  Function.update nodes a ((nodes a).extendKey key values)

/-- An append changes no info. -/
@[simp] theorem appendAt_info (key : NodeId) (values : List Value) (nodes : String → ChordNode)
    (a b : String) : (appendAt key values nodes a b).info = (nodes b).info := by
  unfold appendAt
  rcases eq_or_ne b a with rfl | hb
  · rw [Function.update_self]
    rfl
  · rw [Function.update_of_ne hb]

/-- The nodes differ in their data only, and only under keys that satisfy `P`. -/
def DataWithin (P : NodeId → Prop) (nodes nodes' : String → ChordNode) : Prop :=
  ∀ a, ∃ d : DataMap, nodes' a = { nodes a with data := d } ∧
    ∀ k, ¬ P k → d.lookup k = (nodes a).data.lookup k

namespace DataWithin

variable {P : NodeId → Prop} {nodes nodes' nodes'' : String → ChordNode}

/-- The same data. -/
theorem refl (nodes : String → ChordNode) : DataWithin P nodes nodes :=
  fun a => ⟨(nodes a).data, rfl, fun _ _ => rfl⟩

/-- One append after another. -/
theorem trans (h : DataWithin P nodes nodes') (h' : DataWithin P nodes' nodes'') :
    DataWithin P nodes nodes'' := by
  intro a
  obtain ⟨d, hd, hk⟩ := h a
  obtain ⟨d', hd', hk'⟩ := h' a
  refine ⟨d', by rw [hd', hd], fun k hP => ?_⟩
  rw [hk' k hP, hd]
  exact hk k hP

/-- An append under a key that satisfies `P`. -/
theorem appendAt {key : NodeId} (hkey : P key) (values : List Value)
    (nodes : String → ChordNode) (a : String) :
    DataWithin P nodes (appendAt key values nodes a) := by
  intro b
  rcases eq_or_ne b a with rfl | hb
  · refine ⟨(nodes b).data.insert key ((nodes b).valuesAt key ++ values), ?_, fun k hk => ?_⟩
    · rw [TaceChat.appendAt, Function.update_self]
      rfl
    · exact AList.lookup_insert_ne fun h => hk (h ▸ hkey)
  · refine ⟨(nodes b).data, ?_, fun _ _ => rfl⟩
    rw [TaceChat.appendAt, Function.update_of_ne hb]

/-- The same values are appended at several nodes. -/
theorem foldl_appendAt {key : NodeId} (hkey : P key) (values : List Value) (l : List String) :
    ∀ nodes, DataWithin P nodes (l.foldl (TaceChat.appendAt key values) nodes) := by
  induction l with
  | nil => exact refl
  | cons a l ih => exact fun nodes => (appendAt hkey values nodes a).trans (ih _)

end DataWithin

namespace Network

variable {φ : Type} {medium : Medium φ} {depth : ℕ} {a : String} {net : Network φ}

/-- A `ReplicateData` request appends at the called node, or does not reach it. -/
theorem call_replicateData (address : String) (key : NodeId) (values : List Value) (i : UInt8) :
    Returns (call medium (depth + 1) address (.replicateData key values i)) net fun _ net' =>
      net'.listening = net.listening ∧
        (net'.node = net.node ∨ net'.node = appendAt key values net.node address) := by
  refine returns_call_of_handler (fun _ => ⟨rfl, Or.inl rfl⟩) fun s => ?_
  simp only [handleConnection.eq_def, handleReplicateData, returns_bind, returns_safeUpdate,
    returns_pure, env_node, env_setNode]
  exact ⟨⟨rfl, Or.inr rfl⟩, ⟨rfl, Or.inr rfl⟩⟩

/-- The addresses that a list of replica nodes sends requests to. -/
def replicaAddresses (self : NodeId) (nodes : List NodeInfo) : List String :=
  (nodes.filter fun n => n.id ≠ self).map NodeInfo.address

/-- Replication appends at some of the replica nodes, in their order. -/
theorem forM_replicateTo (key : NodeId) (values : List Value) (pairs : List (NodeInfo × ℕ)) :
    ∀ net : Network φ,
      Returns (forM pairs fun p => replicateTo (env medium (depth + 1) a) key values p.2 p.1) net
        fun _ net' => net'.listening = net.listening ∧
          ∃ l : List String,
            l.Sublist (replicaAddresses (net.node a).info.id (pairs.map Prod.fst)) ∧
              net'.node = l.foldl (appendAt key values) net.node := by
  induction pairs with
  | nil => exact fun net => returns_pure.mpr ⟨rfl, [], List.Sublist.refl _, rfl⟩
  | cons p pairs ih =>
    intro net
    rw [List.forM_cons]
    simp only [replicateTo, returns_bind, returns_safeLock, returns_ite, env_node, env_callNode,
      returns_pure, returns_discard]
    refine ⟨fun hself => (ih net).mono ?_, fun hother => ?_⟩
    · rintro - net' ⟨hl, l, hsub, hnode⟩
      refine ⟨hl, l, ?_, hnode⟩
      rwa [replicaAddresses, List.map_cons, List.filter_cons_of_neg (by simpa using hself)]
    · refine (call_replicateData p.1.address key values _).mono ?_
      rintro - net₁ ⟨hl₁, hnode₁⟩
      refine (ih net₁).mono ?_
      rintro - net' ⟨hl, l, hsub, hnode⟩
      refine ⟨hl.trans hl₁, ?_⟩
      rw [replicaAddresses, List.map_cons, List.filter_cons_of_pos (by simpa using hother),
        List.map_cons]
      -- A call changes values only, so the node still recognizes itself by its id.
      have hid : (net₁.node a).info.id = (net.node a).info.id := by
        rcases hnode₁ with h | h <;> simp [h]
      rw [hid] at hsub
      -- Either the call had no effect or its address is one of the sublist.
      rcases hnode₁ with h | h
      · exact ⟨l, hsub.cons _, by rw [hnode, h]⟩
      · exact ⟨p.1.address :: l, hsub.cons_cons _, by rw [hnode, h]; rfl⟩

/-- A store appends at the node itself and then at some of the replica nodes of the key. -/
theorem store_appends {K : NodeInfo → Prop} (hK : Closed K net) (ha : Reports K (net.node a))
    (key : NodeId) (value : Value) :
    Returns (store (env medium (depth + 1) a) key value) net fun _ net' =>
      net'.listening = net.listening ∧ ∃ (primary : NodeInfo) (l : List String), K primary ∧
        l.Sublist (replicaAddresses (net.node a).info.id
          (primary :: ((net.node a).replicaCandidates primary).take (replicationFactor - 1))) ∧
        net'.node = l.foldl (appendAt key [value]) (appendAt key [value] net.node a) := by
  simp only [store, replicateData, returns_bind, returns_safeUpdate, env_node, env_setNode]
  -- The local append leaves everything that the lookup reads.
  have hreports : ∀ n : ChordNode, Reports K n → Reports K (n.extendKey key [value]) :=
    fun n h => ⟨h.info, h.successor, h.successorList, h.predecessor, h.fingerTable⟩
  have hself : Reports K ((net.setNode a ((net.node a).extendKey key [value])).node a) := by
    rw [setNode_node_self]
    exact hreports _ ha
  have hclosed : Closed K (net.setNode a ((net.node a).extendKey key [value])) := by
    intro x hx
    rcases eq_or_ne x.address a with heq | hne
    · rw [heq]
      exact hself
    · rw [setNode_node_of_ne hne]
      exact hK x hx
  refine (getReplicaNodes_finds hclosed hself key).mono ?_
  rintro replicas net₁ ⟨h₁, primary, hprimary, rfl⟩
  refine (forM_replicateTo key [value] _ net₁).mono ?_
  rintro - net₂ ⟨hl, l, hsub, hnode⟩
  rw [h₁.1, setNode_node_self, List.zipIdx_map_fst] at hsub
  refine ⟨hl.trans h₁.2, primary, l, hprimary, hsub, ?_⟩
  rw [hnode, h₁.1]
  rfl

/-- The networks differ in data under keys that satisfy `P` only. -/
def ChangesData (P : NodeId → Prop) (net net' : Network φ) : Prop :=
  net'.listening = net.listening ∧ DataWithin P net.node net'.node

/-- A network that stays. -/
theorem ChangesData.refl {P : NodeId → Prop} (net : Network φ) : ChangesData P net net :=
  ⟨rfl, .refl _⟩

/-- One change after another. -/
theorem ChangesData.trans {P : NodeId → Prop} {net net' net'' : Network φ}
    (h : ChangesData P net net') (h' : ChangesData P net' net'') : ChangesData P net net'' :=
  ⟨h'.1.trans h.1, h.2.trans h'.2⟩

/-- A store changes data under its key only. -/
theorem store_changesData {P : NodeId → Prop} {key : NodeId} (hkey : P key) (value : Value) :
    Returns (store (env medium (depth + 1) a) key value) net fun _ net' =>
      ChangesData P net net' := by
  refine (store_appends (.any net) (.any _) key value).mono ?_
  rintro - net' ⟨hl, -, l, -, -, hnode⟩
  refine ⟨hl, ?_⟩
  rw [hnode]
  exact (DataWithin.appendAt hkey _ _ a).trans (.foldl_appendAt hkey _ l _)

/-- The same for a `Store` request, whatever becomes of it. -/
theorem call_store_changesData {P : NodeId → Prop} {key : NodeId} (hkey : P key)
    (address : String) (value : Value) :
    Returns (call medium (depth + 2) address (.store key value)) net fun _ net' =>
      ChangesData P net net' := by
  refine returns_call_of_handler (fun _ => ⟨rfl, .refl _⟩) fun s => ?_
  simp only [handleConnection.eq_def, returns_bind, returns_pure, and_self]
  exact (store_changesData hkey value).mono fun _ _ h => h

/-- The rule for a loop over the values of a data range. -/
theorem forEachValue_changesData {P : NodeId → Prop} {data : List (NodeId × List Value)}
    {act : NodeId → Value → NodeM (Network φ) Unit} (hdata : ∀ e ∈ data, P e.1)
    (hact : ∀ key value net, P key → Returns (act key value) net fun _ net' =>
      ChangesData P net net') :
    Returns (forEachValue data act) net fun _ net' => ChangesData P net net' := by
  refine Returns.forM (I := fun net' => ChangesData P net net') (fun e he net₁ h₁ => ?_) (.refl net)
  refine Returns.forM (I := fun net' => ChangesData P net net') (fun value _ net₂ h₂ => ?_) h₁
  exact (hact e.1 value net₂ (hdata e he)).mono fun _ _ h => h₂.trans h

end Network

end TaceChat
