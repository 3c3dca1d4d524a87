import TaceChat.Library.Search
import TaceChat.Proofs.IdNetwork
import TaceChat.Proofs.Nesting
import TaceChat.Proofs.Replicas

/-!
# When a read returns

`retrieve` asks the replica nodes of a key, whose handlers call `retrieve` in turn. In a network
where every call is answered and nothing else runs, this is the `Search` of the library: a node
that has the key answers (`Directory.held`), and any other asks its replica nodes in the order of
their loads, without itself (`Directory.asked`).

`counting` is the medium that answers every call and counts the `Retrieve` requests.
`returns_retrieve_of_search` and `search_of_returns_retrieve` connect `retrieve` and the search in
both directions, and `retrieve_returns_iff` says which reads return: those from a dead end, and
those that the first live replica nodes lead to a holder of the key. A read that returns makes a
number of requests that is bounded by the number of nodes.
-/

set_option autoImplicit false

namespace TaceChat

open Network Relation Search

/-- The medium that answers every call, and counts the requests to retrieve. -/
def counting : Medium ℕ := fun count _ m =>
  (.answered, match m with
    | .retrieve _ => count + 1
    | _ => count)

/-- The medium answers every call. Its tally grows by `step` with each request to retrieve, and not
with routing calls. -/
structure Medium.Tallies {φ : Type} (medium : Medium φ) (tally : φ → ℕ) (step : ℕ) : Prop where
  answered : ∀ s a m, (medium s a m).1 = .answered
  retrieve : ∀ s a key, tally (medium s a (.retrieve key)).2 = tally s + step
  routing : ∀ {m}, Routing m → ∀ s a, tally (medium s a m).2 = tally s

/-- The medium counts every call once. -/
theorem counting_tallies : counting.Tallies id 1 where
  answered _ _ _ := rfl
  retrieve _ _ _ := rfl
  routing hm _ _ := by cases hm <;> rfl

/-- The reliable medium has nothing to count with. -/
theorem reliable_tallies : reliable.Tallies (fun _ => 0) 0 where
  answered _ _ _ := rfl
  retrieve _ _ _ := rfl
  routing _ _ _ := rfl

/-- Routing calls are answered and not counted. -/
theorem Medium.Tallies.budget {φ : Type} {medium : Medium φ} {tally : φ → ℕ} {step : ℕ}
    (h : medium.Tallies tally step) (n : ℕ) : medium.Budget fun _ s => tally s = n where
  answered _ _ a := h.answered _ a _
  next hs hm a := (h.routing hm _ a).trans hs
  mono hs := hs

/-- The same nodes, after the tally has grown by `n`. -/
def Tallied {φ : Type} (tally : φ → ℕ) (n : ℕ) (net net' : Network φ) : Prop :=
  SameNodes net net' ∧ tally net'.medium = tally net.medium + n

/-- The calls of two parts add up. -/
theorem Tallied.trans {φ : Type} {tally : φ → ℕ} {m n : ℕ} {net net' net'' : Network φ}
    (h : Tallied tally m net net') (h' : Tallied tally n net' net'') :
    Tallied tally (m + n) net net'' :=
  ⟨h.1.trans h'.1, by rw [h'.2, h.2, Nat.add_assoc]⟩

namespace Directory

section
variable (D : Directory) (nodes : String → ChordNode) (key : NodeId)

/-- What the node `v` holds under the key. -/
def held (v : NodeId) : Option (List Value) := (D.at' nodes v).data.lookup key

/-- The nodes that `v` asks for the key, in order. -/
def asked (v : NodeId) : List NodeId :=
  (((D.replicaNodes nodes key v).insertionSort (D.at' nodes v).loadLe).map NodeInfo.id).filter
    fun w => w ≠ v

/-- A read at `v` comes to an end. It starts at a dead end, from which neither a holder of the key
nor a cycle of requests can be reached, or the first live nodes lead it to a holder. -/
def ReadEnds (v : NodeId) : Prop :=
  DeadEnd (D.held nodes key) (D.asked nodes key) v ∨
    Leads (D.held nodes key) (D.asked nodes key) v

end

variable {D : Directory} {φ : Type} {medium : Medium φ} {tally : φ → ℕ} {step depth : ℕ}
  {net : Network φ} {key v : NodeId}

/-- Only members are asked. -/
theorem Serves.asked_mem (hS : D.Serves net) (hv : v ∈ D.ids) :
    ∀ w ∈ D.asked net.node key v, w ∈ D.ids := by
  intro w hw
  obtain ⟨x, hx, rfl⟩ := List.mem_map.mp (List.mem_filter.mp hw).1
  exact (hS.replicaNodes_known hv x ((List.mem_insertionSort _).mp hx)).mem

/-- A node asks at most the selected nodes. -/
theorem length_asked (nodes : String → ChordNode) (key v : NodeId) :
    (D.asked nodes key v).length ≤ replicationFactor := by
  refine (List.length_filter_le _ _).trans ?_
  rw [List.length_map, List.length_insertionSort, replicaNodes, List.length_cons,
    List.length_take]
  unfold replicationFactor
  omega

/-- A node asks the primary node of the key, unless it is that node. -/
theorem primary_mem_asked {nodes : String → ChordNode} (h : D.primary nodes key v ≠ v) :
    D.primary nodes key v ∈ D.asked nodes key v := by
  refine List.mem_filter.mpr ⟨List.mem_map.mpr ⟨D.info (D.primary nodes key v), ?_, ?_⟩, ?_⟩
  · exact (List.mem_insertionSort _).mpr List.mem_cons_self
  · exact D.info_id _
  · exact decide_eq_true h

/-- Data does not matter for whom a node asks. -/
theorem asked_changesData {P : NodeId → Prop} {nodes nodes' : String → ChordNode}
    (h : DataWithin P nodes nodes') : D.asked nodes' key v = D.asked nodes key v := by
  obtain ⟨d, hd, -⟩ := h (D.info v).address
  have hd : D.at' nodes' v = { D.at' nodes v with data := d } := hd
  simp only [asked, replicaNodes_changesData h, hd]
  rfl

/-! ### What `retrieve` does -/

/-- The lookup of the replica nodes changes nothing. -/
theorem returns_getReplicaNodes (hmedium : medium.Tallies tally step) (hS : D.Serves net)
    (hv : v ∈ D.ids) :
    Returns (getReplicaNodes (env medium (depth + 1) (D.info v).address) key) net
      fun r net' => r = D.replicaNodes net.node key v ∧ Tallied tally 0 net net' :=
  (getReplicaNodes_replicaNodes (c := 0) (hmedium.budget _) hS hv rfl).mono fun _ _ h => h

/-- A `Retrieve` request to a member is a read at that member. -/
theorem returns_call_retrieve (hmedium : medium.Tallies tally step) (hS : D.Serves net)
    (hv : v ∈ D.ids) {Q : Option DhtMessage → Network φ → Prop} :
    Returns (call medium (depth + 1) (D.info v).address (.retrieve key)) net Q ↔
      Returns (retrieve (env medium depth (D.info v).address) key)
        { net with medium := (medium net.medium (D.info v).address (.retrieve key)).2 }
        fun r net' => Q (some (.retrieved key r)) net' := by
  rw [returns_call_answered (hmedium.answered _ _ _) (hS.listening v hv)]
  simp only [handleConnection.eq_def, returns_bind, returns_pure]

/-- The request itself adds to the tally. -/
theorem tallied_request (hmedium : medium.Tallies tally step) (net : Network φ) (a : String)
    (key : NodeId) :
    Tallied tally step net { net with medium := (medium net.medium a (.retrieve key)).2 } :=
  ⟨⟨rfl, rfl⟩, hmedium.retrieve _ _ _⟩

section TryReplicas

variable {fuel : ℕ}

/-- The loop over the replica nodes does what the search of a list does, when each request does
what the search of a node does. -/
theorem returns_tryReplicas_of_askAll
    (hcall : ∀ {net : Network φ} {w : NodeId} {r : Option (List Value)} {count : ℕ},
      D.Serves net → w ∈ D.ids →
      search (D.held net.node key) (D.asked net.node key) fuel w = some (r, count) →
      Returns (call medium depth (D.info w).address (.retrieve key)) net fun r' net' =>
        r' = some (.retrieved key r) ∧ Tallied tally (step * (count + 1)) net net')
    (hv : v ∈ D.ids) {l : List NodeInfo} :
    ∀ {net : Network φ} {r : Option (List Value)} {count : ℕ}, D.Serves net →
      (∀ x ∈ l, D.Known x) →
      askAll (search (D.held net.node key) (D.asked net.node key) fuel)
        ((l.map NodeInfo.id).filter fun w => w ≠ v) = some (r, count) →
      Returns (tryReplicas (env medium depth (D.info v).address) key l) net
        fun r' net' => r' = r ∧ Tallied tally (step * count) net net' := by
  induction l with
  | nil =>
    rintro net r count hS - hask
    cases hask
    exact returns_pure.mpr ⟨rfl, .refl net, rfl⟩
  | cons x l ih =>
    intro net r count hS hl hask
    obtain ⟨⟨w, hw, rfl⟩, htail⟩ := List.forall_mem_cons.mp hl
    simp only [tryReplicas, returns_bind, returns_safeLock, returns_ite, env_node, env_callNode,
      hS.info_id_eq hv]
    rw [List.map_cons, D.info_id] at hask
    refine ⟨fun heq => ?_, fun hne => ?_⟩
    · -- The node skips itself, in the code and in the search.
      rw [List.filter_cons_of_neg (by simpa using heq)] at hask
      exact ih hS htail hask
    · rw [List.filter_cons_of_pos (by simpa using hne), askAll] at hask
      cases hsearch : search (D.held net.node key) (D.asked net.node key) fuel w with
      | none =>
        rw [hsearch] at hask
        cases hask
      | some result =>
        rw [hsearch] at hask
        obtain ⟨_ | values, cost⟩ := result
        · refine (hcall hS hw hsearch).mono ?_
          rintro _ net₁ ⟨rfl, h₁⟩
          simp only at hask ⊢
          -- The node has no value, so the rest of the list is asked after the calls made so far.
          cases hrest : askAll (search (D.held net.node key) (D.asked net.node key) fuel)
              ((l.map NodeInfo.id).filter fun w => w ≠ v) with
          | none =>
            rw [hrest] at hask
            cases hask
          | some rest =>
            rw [hrest] at hask
            cases hask
            rw [← h₁.1.1] at hrest
            refine (ih (hS.sameNodes h₁.1) htail hrest).mono ?_
            rintro _ net₂ ⟨rfl, h₂⟩
            exact ⟨rfl, Nat.mul_add step _ _ ▸ h₁.trans h₂⟩
        · refine (hcall hS hw hsearch).mono ?_
          rintro _ net₁ ⟨rfl, h₁⟩
          cases hask
          exact returns_pure.mpr ⟨rfl, h₁⟩

/-- When the loop returns, so does the search of the list. -/
theorem askAll_of_returns_tryReplicas
    (hcall : ∀ {net : Network φ} {w : NodeId} {Q : Option DhtMessage → Network φ → Prop},
      D.Serves net → w ∈ D.ids →
      Returns (call medium depth (D.info w).address (.retrieve key)) net Q →
      ∃ r count net', search (D.held net.node key) (D.asked net.node key) fuel w = some (r, count) ∧
        SameNodes net net' ∧ Q (some (.retrieved key r)) net')
    (hv : v ∈ D.ids) {l : List NodeInfo} :
    ∀ {net : Network φ} {Q : Option (List Value) → Network φ → Prop}, D.Serves net →
      (∀ x ∈ l, D.Known x) →
      Returns (tryReplicas (env medium depth (D.info v).address) key l) net Q →
      ∃ result, askAll (search (D.held net.node key) (D.asked net.node key) fuel)
        ((l.map NodeInfo.id).filter fun w => w ≠ v) = some result := by
  induction l with
  | nil => exact fun _ _ _ => ⟨(none, 0), rfl⟩
  | cons x l ih =>
    intro net Q hS hl hrun
    obtain ⟨⟨w, hw, rfl⟩, htail⟩ := List.forall_mem_cons.mp hl
    simp only [tryReplicas, returns_bind, returns_safeLock, returns_ite, env_node, env_callNode,
      hS.info_id_eq hv] at hrun
    rw [List.map_cons, D.info_id]
    -- The node skips itself, in the code and in the search.
    by_cases heq : w = v
    · rw [List.filter_cons_of_neg (by simpa using heq)]
      exact ih hS htail (hrun.1 heq)
    · rw [List.filter_cons_of_pos (by simpa using heq), askAll]
      obtain ⟨r, count, net', hsearch, hsame, hrest⟩ := hcall hS hw (hrun.2 heq)
      rw [hsearch]
      cases r with
      | none =>
        obtain ⟨⟨r, count'⟩, hask⟩ := ih (hS.sameNodes hsame) htail hrest
        rw [hsame.1] at hask
        exact ⟨(r, count + 1 + count'), by simp only [hask]⟩
      | some values => exact ⟨(some values, count + 1), rfl⟩

end TryReplicas

/-- A search that ends is a read that returns its result, with the same number of requests. -/
theorem returns_retrieve_of_search (hmedium : medium.Tallies tally step) (fuel : ℕ) :
    ∀ {net : Network φ} {v : NodeId} {r : Option (List Value)} {count : ℕ}, D.Serves net →
      v ∈ D.ids →
      search (D.held net.node key) (D.asked net.node key) fuel v = some (r, count) →
      Returns (retrieve (env medium fuel (D.info v).address) key) net
        fun r' net' => r' = r ∧ Tallied tally (step * count) net net' := by
  induction fuel with
  | zero => exact fun _ _ h => by cases h
  | succ fuel ih =>
    intro net v r count hS hv hsearch
    simp only [retrieve, returns_bind, returns_safeLock, env_node]
    rw [search] at hsearch
    cases hheld : D.held net.node key v with
    | some values =>
      -- A local value ends the read.
      have hlookup : (net.node (D.info v).address).data.lookup key = some values := hheld
      rw [hheld] at hsearch
      cases hsearch
      rw [hlookup]
      exact returns_pure.mpr ⟨rfl, .refl net, rfl⟩
    | none =>
      have hlookup : (net.node (D.info v).address).data.lookup key = none := hheld
      rw [hheld] at hsearch
      rw [hlookup]
      -- Otherwise the replicas are read, each with one level less.
      refine (returns_getReplicaNodes hmedium hS hv).bind ?_
      rintro _ net₁ ⟨rfl, h₁⟩
      simp only [returns_bind, returns_safeLock, env_node]
      rw [← h₁.1.1] at hsearch ⊢
      have hcall : ∀ {net : Network φ} {w : NodeId} {r : Option (List Value)} {count : ℕ},
          D.Serves net → w ∈ D.ids →
          search (D.held net.node key) (D.asked net.node key) fuel w = some (r, count) →
          Returns (call medium (fuel + 1) (D.info w).address (.retrieve key)) net fun r' net' =>
            r' = some (.retrieved key r) ∧ Tallied tally (step * (count + 1)) net net' := by
        intro net w r count hS hw hw'
        have hrequest := tallied_request hmedium net (D.info w).address key
        rw [← hrequest.1.1] at hw'
        refine (returns_call_retrieve hmedium hS hw).mpr
          ((ih (hS.sameNodes hrequest.1) hw hw').mono ?_)
        rintro _ net' ⟨rfl, h⟩
        refine ⟨rfl, ?_⟩
        rw [Nat.mul_succ, Nat.add_comm]
        exact hrequest.trans h
      have hknown : ∀ x ∈ (D.replicaNodes net₁.node key v).insertionSort
          (D.at' net₁.node v).loadLe, D.Known x := fun x hx =>
        (hS.sameNodes h₁.1).replicaNodes_known hv x ((List.mem_insertionSort _).mp hx)
      refine (returns_tryReplicas_of_askAll hcall hv (hS.sameNodes h₁.1) hknown hsearch).mono ?_
      rintro _ net₂ ⟨rfl, h₂⟩
      exact ⟨rfl, Nat.zero_add (step * count) ▸ h₁.trans h₂⟩

/-- A read that returns is a search that ends, when that is so for the requests it makes. -/
theorem search_of_returns_retrieve_of_call (hmedium : medium.Tallies tally step) {fuel : ℕ}
    (hcall : ∀ {net : Network φ} {w : NodeId} {Q : Option DhtMessage → Network φ → Prop},
      D.Serves net → w ∈ D.ids →
      Returns (call medium depth (D.info w).address (.retrieve key)) net Q →
      ∃ r count net', search (D.held net.node key) (D.asked net.node key) fuel w = some (r, count) ∧
        SameNodes net net' ∧ Q (some (.retrieved key r)) net')
    (hS : D.Serves net) (hv : v ∈ D.ids) {Q : Option (List Value) → Network φ → Prop}
    (hrun : Returns (retrieve (env medium depth (D.info v).address) key) net Q) :
    ∃ result, search (D.held net.node key) (D.asked net.node key) (fuel + 1) v = some result := by
  cases hheld : D.held net.node key v with
  | some values => exact ⟨(some values, 0), by rw [search, hheld]⟩
  | none =>
    have hlookup : (net.node (D.info v).address).data.lookup key = none := hheld
    simp only [retrieve, returns_bind, returns_safeLock, env_node, hlookup] at hrun
    obtain ⟨nodes, net', hnodes, hrun⟩ := returns_bind.mp hrun
    -- More nesting finds the same replica nodes.
    have hmore : Returns (getReplicaNodes (env medium (depth + 1) (D.info v).address) key) net
        fun r s => r = nodes ∧ s = net' :=
      (getReplicaNodes_extends (call_succ_extends depth) key).returns
        ⟨nodes, net', hnodes, rfl, rfl⟩
    obtain ⟨_, _, -, ⟨rfl, rfl⟩, rfl, hsame, -⟩ := hmore.and (returns_getReplicaNodes hmedium hS hv)
    simp only [returns_bind, returns_safeLock, env_node] at hrun
    rw [search_succ_of_none hheld, ← hsame.1]
    rw [← hsame.1] at hrun
    refine askAll_of_returns_tryReplicas hcall hv (hS.sameNodes hsame) (fun x hx => ?_) hrun
    exact (hS.sameNodes hsame).replicaNodes_known hv x ((List.mem_insertionSort _).mp hx)

/-- A read that returns is a search that ends. -/
theorem search_of_returns_retrieve (hmedium : medium.Tallies tally step) (depth : ℕ) :
    ∀ {net : Network φ} {v : NodeId} {Q : Option (List Value) → Network φ → Prop}, D.Serves net →
      v ∈ D.ids → Returns (retrieve (env medium depth (D.info v).address) key) net Q →
      ∃ result,
        search (D.held net.node key) (D.asked net.node key) (depth + 1) v = some result := by
  induction depth with
  | zero =>
    intro net v Q hS hv hrun
    refine search_of_returns_retrieve_of_call hmedium ?_ hS hv hrun
    rintro net w Q - - ⟨_, _, hrun, -⟩
    cases hrun
  | succ depth ih =>
    intro net v Q hS hv hrun
    refine search_of_returns_retrieve_of_call hmedium ?_ hS hv hrun
    intro net w Q hS hw hrun
    have hrequest := tallied_request hmedium net (D.info w).address key
    have hS₁ := hS.sameNodes hrequest.1
    have hrun := (returns_call_retrieve hmedium hS hw).mp hrun
    obtain ⟨⟨r, count⟩, hsearch⟩ := ih hS₁ hw hrun
    -- The read returns the result of the search, and `hrun` holds of what it returns.
    have hresult := returns_retrieve_of_search hmedium (depth + 1) hS₁ hw hsearch
    obtain ⟨r', net', -, ⟨rfl, hsame, -⟩, hQ⟩ := hresult.and
      ((retrieve_env_extends (Nat.le_succ depth) _ key).returns hrun)
    exact ⟨r', count, net', hsearch, hrequest.1.trans hsame, hQ⟩

/-- What a read returns: nothing from a dead end, and otherwise the values of the node that the
first live replica nodes lead to. -/
theorem ends_of_returns_retrieve (hmedium : medium.Tallies tally step) (hS : D.Serves net)
    (hv : v ∈ D.ids) {Q : Option (List Value) → Network φ → Prop}
    (h : Returns (retrieve (env medium depth (D.info v).address) key) net Q) :
    ∃ r net', SameNodes net net' ∧ Q r net' ∧
      (DeadEnd (D.held net.node key) (D.asked net.node key) v ∧ r = none ∨
        ∃ w values, ReflTransGen (FirstLive (D.held net.node key) (D.asked net.node key)) v w ∧
          D.held net.node key w = some values ∧ r = some values) := by
  obtain ⟨⟨r, count⟩, hsearch⟩ := search_of_returns_retrieve hmedium depth hS hv h
  have hresult := returns_retrieve_of_search hmedium (depth + 1) hS hv hsearch
  obtain ⟨_, net', -, ⟨rfl, hsame, -⟩, hQ⟩ := hresult.and
    ((retrieve_env_extends (Nat.le_succ depth) _ key).returns h)
  refine ⟨_, net', hsame, hQ, ?_⟩
  rename_i r
  cases r with
  | none => exact Or.inl ⟨deadEnd_of_search _ hsearch, rfl⟩
  | some values =>
    obtain ⟨w, hvw, hw⟩ := led_of_search _ hsearch
    exact Or.inr ⟨w, values, hvw, hw, rfl⟩

/-- A read at a dead end returns nothing. -/
theorem returns_retrieve_of_deadEnd (hmedium : medium.Tallies tally step) (hS : D.Serves net)
    (hv : v ∈ D.ids) (h : DeadEnd (D.held net.node key) (D.asked net.node key) v) :
    Returns (retrieve (env medium D.ids.card (D.info v).address) key) net
      fun r net' => r = none ∧ SameNodes net net' := by
  obtain ⟨count, hsearch⟩ := search_of_deadEnd (fun v hv _ => hS.asked_mem hv) hv h
  exact (returns_retrieve_of_search hmedium _ hS hv hsearch).mono fun _ _ h => ⟨h.1, h.2.1⟩

/-- A read that is led to a holder of the key returns its values. -/
theorem returns_retrieve_of_led (hmedium : medium.Tallies tally step) (hS : D.Serves net)
    (hv : v ∈ D.ids) {w : NodeId} {values : List Value}
    (hvw : ReflTransGen (FirstLive (D.held net.node key) (D.asked net.node key)) v w)
    (hw : D.held net.node key w = some values) :
    Returns (retrieve (env medium D.ids.card (D.info v).address) key) net
      fun r net' => r = some values ∧ SameNodes net net' := by
  obtain ⟨count, hsearch⟩ := search_of_led (fun v hv _ => hS.asked_mem hv) hv hvw hw
  exact (returns_retrieve_of_search hmedium _ hS hv hsearch).mono fun _ _ h => ⟨h.1, h.2.1⟩

/-! ### Which reads return -/

section Counting

variable {net : Network ℕ}

/-- A read that returns with some nesting ends. -/
theorem readEnds_of_returns (hS : D.Serves net) (hv : v ∈ D.ids)
    {Q : Option (List Value) → Network ℕ → Prop}
    (h : Returns (retrieve (env counting depth (D.info v).address) key) net Q) :
    D.ReadEnds net.node key v := by
  obtain ⟨result, hresult⟩ := search_of_returns_retrieve counting_tallies depth hS hv h
  exact (ends_iff (fun v hv _ => hS.asked_mem hv) hv).mp ⟨depth + 1, result, hresult⟩

/-- A read that ends makes a bounded number of requests. -/
theorem ReadEnds.returns (hS : D.Serves net) (hv : v ∈ D.ids)
    (h : D.ReadEnds net.node key v) :
    Returns (retrieve (env counting D.ids.card (D.info v).address) key) net fun _ net' =>
      net'.medium ≤ net.medium + requestBound replicationFactor D.ids.card := by
  obtain ⟨fuel, result, hresult⟩ := (ends_iff (fun v hv _ => hS.asked_mem hv) hv).mpr h
  obtain ⟨r, count⟩ := result
  have hcard := search_of_card_le (fun v hv _ => hS.asked_mem hv) hv hresult
  have hbound := search_cost (length_asked net.node key) D.ids.card hcard
  refine (returns_retrieve_of_search counting_tallies D.ids.card hS hv hcard).mono ?_
  rintro _ net' ⟨-, -, htally⟩
  have htally : net'.medium = net.medium + 1 * count := htally
  omega

end Counting

end Directory

/-- A read returns, within a number of requests that depends on the number of nodes only, exactly
when it ends at a dead end or is led to a holder of the key. A read that is neither returns with
no nesting at all. -/
theorem retrieve_returns_iff (D : Directory) (net : Network ℕ) (key v : NodeId)
    (hS : D.Serves net) (hv : v ∈ D.ids) :
    ((∃ depth, Returns (retrieve (env counting depth (D.info v).address) key) net fun _ net' =>
        net'.medium ≤ net.medium + requestBound replicationFactor D.ids.card) ↔
      D.ReadEnds net.node key v) ∧
    ((∃ depth, Returns (retrieve (env counting depth (D.info v).address) key) net
        fun _ _ => True) ↔ D.ReadEnds net.node key v) := by
  have hends : D.ReadEnds net.node key v → _ := Directory.ReadEnds.returns hS hv
  refine ⟨⟨?_, fun h => ⟨_, hends h⟩⟩, ?_, fun h => ⟨_, (hends h).mono fun _ _ _ => trivial⟩⟩
  · rintro ⟨depth, h⟩
    exact Directory.readEnds_of_returns hS hv h
  · rintro ⟨depth, h⟩
    exact Directory.readEnds_of_returns hS hv h

/-! ### Keys that nobody holds -/

/-- A network with a medium that counts. -/
def Network.withCounter (net : Network Unit) : Network ℕ := { net with medium := 0 }

/-- The counter is no node. -/
theorem Directory.Serves.withCounter {D : Directory} {net : Network Unit} (hS : D.Serves net) :
    D.Serves net.withCounter where
  info := hS.info
  listening := hS.listening
  reports := hS.reports

/-- Each node of the ring takes the other one for the primary node of the key 15. -/
theorem pairRing_primary {i : NodeId} (hi : i ∈ pairIds) :
    (Directory.ofIds pairIds).primary pairRing.withCounter.node (biguintToNodeId 15) i
      = otherOfPair i := by
  have hcovers : ¬ ((Directory.ofIds pairIds).at' pairRing.withCounter.node i).Covers
      (biguintToNodeId 15) := by
    intro h
    rw [withCounter, pairRing, Directory.at'_ofIds] at h
    obtain ⟨x, hx, hbetween⟩ := List.any_eq_true.mp h
    obtain rfl := List.eq_of_mem_replicate hx
    revert hbetween
    simp only [pairIds, Finset.mem_insert, Finset.mem_singleton] at hi
    rcases hi with rfl | rfl <;> decide
  rw [Directory.primary, if_neg hcovers]
  show (Directory.ofIds pairIds).succ pairRing.node
    ((Directory.ofIds pairIds).route pairRing.node (biguintToNodeId 15) maxRetries i) = _
  rw [pairRing_route, pairRing_succ]

/-- The ring of two after the node 20 has got a value under the key 15. -/
def heldPair : Network ℕ :=
  { pairRing.withCounter with
    node :=
      appendAt (biguintToNodeId 15) [[1]] pairRing.node (infoOf (biguintToNodeId 20)).address }

/-- `retrieve_returns_iff` at the node 10, which asks the node 20 for the key 15. -/
theorem retrieve_returns_iff_heldPair :
    ∃ depth, Returns (retrieve (env counting depth (infoOf (biguintToNodeId 10)).address)
        (biguintToNodeId 15)) heldPair fun _ net' =>
      net'.medium ≤ 0 + requestBound replicationFactor 2 := by
  have hdata : DataWithin (fun _ => True) pairRing.withCounter.node heldPair.node :=
    .appendAt trivial _ _ _
  have hS : (Directory.ofIds pairIds).Serves heldPair :=
    pairRing_serves.withCounter.changesData ⟨rfl, hdata⟩
  have hnone : (Directory.ofIds pairIds).held heldPair.node (biguintToNodeId 15)
      (biguintToNodeId 10) = none := by
    have hne : (infoOf (biguintToNodeId 10)).address ≠ (infoOf (biguintToNodeId 20)).address := by
      decide
    rw [Directory.held, Directory.at']
    show (appendAt _ _ _ _ (infoOf (biguintToNodeId 10)).address).data.lookup _ = none
    rw [appendAt, Function.update_of_ne hne]
    rfl
  have hsome : ((Directory.ofIds pairIds).held heldPair.node (biguintToNodeId 15)
      (biguintToNodeId 20)).isSome := by
    rw [Directory.held, Directory.at']
    show ((appendAt _ _ _ _ (infoOf (biguintToNodeId 20)).address).data.lookup _).isSome
    rw [appendAt, Function.update_self, ChordNode.extendKey, AList.lookup_insert]
    rfl
  -- The node 10 asks the primary node 20, and nobody else is there to be asked.
  have hprimary : (Directory.ofIds pairIds).primary heldPair.node (biguintToNodeId 15)
      (biguintToNodeId 10) = biguintToNodeId 20 := by
    rw [Directory.primary_changesData hdata, pairRing_primary (by decide)]
    decide
  have hasks : biguintToNodeId 20 ∈ (Directory.ofIds pairIds).asked heldPair.node
      (biguintToNodeId 15) (biguintToNodeId 10) := by
    rw [← hprimary]
    exact Directory.primary_mem_asked (by rw [hprimary]; decide)
  have honly : ∀ w ∈ (Directory.ofIds pairIds).asked heldPair.node (biguintToNodeId 15)
      (biguintToNodeId 10), w = biguintToNodeId 20 := by
    intro w hw
    have hne : w ≠ biguintToNodeId 10 := of_decide_eq_true (List.mem_filter.mp hw).2
    have hmem : w ∈ pairIds := hS.asked_mem (by decide) w hw
    simp only [pairIds, Finset.mem_insert, Finset.mem_singleton] at hmem
    exact hmem.resolve_left hne
  refine (retrieve_returns_iff (Directory.ofIds pairIds) heldPair (biguintToNodeId 15)
    (biguintToNodeId 10) hS (by decide)).1.mpr (Or.inr ⟨biguintToNodeId 20, .single ?_, hsome⟩)
  cases hlist : (Directory.ofIds pairIds).asked heldPair.node (biguintToNodeId 15)
      (biguintToNodeId 10) with
  | nil =>
    rw [hlist] at hasks
    cases hasks
  | cons w ws =>
    have hw : w = biguintToNodeId 20 := honly w (by rw [hlist]; exact List.mem_cons_self)
    subst hw
    refine ⟨hnone, [], ws, hlist, fun u hu => (by cases hu), fun hdead => ?_⟩
    have hempty := (hdead _ .refl).1
    rw [hempty] at hsome
    cases hsome

/-- In the ring of two, a read of the key 15 does not end. Each node asks the other. -/
theorem pairRing_not_readEnds :
    ¬ (Directory.ofIds pairIds).ReadEnds pairRing.withCounter.node (biguintToNodeId 15)
      (biguintToNodeId 10) := by
  have hheld : ∀ i, (Directory.ofIds pairIds).held pairRing.withCounter.node (biguintToNodeId 15) i
      = none := by
    intro i
    rw [Directory.held, withCounter, pairRing, Directory.at'_ofIds]
    rfl
  have hrequest : ∀ i ∈ pairIds, Request
      ((Directory.ofIds pairIds).held pairRing.withCounter.node (biguintToNodeId 15))
      ((Directory.ofIds pairIds).asked pairRing.withCounter.node (biguintToNodeId 15))
      i (otherOfPair i) := by
    intro i hi
    refine ⟨hheld i, ?_⟩
    have hprimary := pairRing_primary hi
    rw [← hprimary]
    refine Directory.primary_mem_asked ?_
    rw [hprimary]
    simp only [pairIds, Finset.mem_insert, Finset.mem_singleton] at hi
    rcases hi with rfl | rfl <;> decide
  rintro (hdead | ⟨w, -, hw⟩)
  · refine (hdead _ .refl).2 (.tail (.single (hrequest _ (by decide))) ?_)
    exact hrequest (biguintToNodeId 20) (by decide)
  · rw [hheld] at hw
    cases hw

/-- A read does not always return. In the ring of two, where nobody holds the key 15, the nodes
10 and 20 ask each other for it without end. -/
theorem retrieve_not_returns :
    ¬ ∀ (D : Directory) (net : Network ℕ) (key v : NodeId), D.Serves net → v ∈ D.ids →
      ∃ depth, Returns (retrieve (env counting depth (D.info v).address) key) net
        fun _ _ => True := by
  intro hall
  obtain ⟨depth, h⟩ := hall (Directory.ofIds pairIds) pairRing.withCounter (biguintToNodeId 15)
    (biguintToNodeId 10) pairRing_serves.withCounter (by decide)
  exact pairRing_not_readEnds
    (Directory.readEnds_of_returns pairRing_serves.withCounter (by decide) h)

end TaceChat
