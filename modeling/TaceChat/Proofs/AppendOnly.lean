import Mathlib.Tactic.Linarith
import TaceChat.Proofs.TaskRules

/-!
# The data of a running node only grows

Every write of a task to the data appends, except the removal that starts a migration. A migration
needs a replica node with less load than this node. The only load that is ever recorded is the
node's own (`OwnLoadOnly`), which is capped at 1, and a node without a recorded load counts as
loaded with 1. So no migration starts, and the values under a key only get more behind
(`DataExtends`), whatever the tasks do among each other and whatever the other nodes reply.
`ownLoad_taskRules` checks this for each kind of write.
-/

set_option autoImplicit false

namespace TaceChat

/-- No load of another node is recorded, and the own load is at most 1. -/
def OwnLoadOnly (n : ChordNode) : Prop :=
  ∀ id load, n.nodeLoads id = some load → id = n.info.id ∧ load ≤ 1

/-- Every key is still there, with the values that it had in front. -/
def DataExtends (n n' : ChordNode) : Prop :=
  ∀ key values, n.data.lookup key = some values →
    ∃ values', n'.data.lookup key = some values' ∧ values <+: values'

/-- What the sections of a program keep and do, and what holds of its result. -/
abbrev NodeSpec {α : Type} (p : NodeProg α) (Q : α → Prop) : Prop :=
  p.Spec OwnLoadOnly DataExtends Q

/-- What the sections of a program keep and do when the program runs among others. -/
abbrev Keeps {α : Type} (p : NodeProg α) : Prop := NodeSpec p fun _ => True

/-! ### Sections -/

section Sections

variable {n n' n'' : ChordNode} {key : NodeId} {values : List Value}

/-- The same data. -/
theorem DataExtends.refl (n : ChordNode) : DataExtends n n := by
  intro key values h
  exact ⟨values, h, List.prefix_refl values⟩

/-- One append after another. -/
theorem DataExtends.trans (h : DataExtends n n') (h' : DataExtends n' n'') :
    DataExtends n n'' := by
  intro key values hkey
  obtain ⟨values', hkey', hpre⟩ := h key values hkey
  obtain ⟨values'', hkey'', hlonger⟩ := h' key values' hkey'
  exact ⟨values'', hkey'', hpre.trans hlonger⟩

/-- An append keeps the keys and the values in front. -/
theorem dataExtends_extendKey : DataExtends n (n.extendKey key values) := by
  intro k old hk
  by_cases heq : k = key
  · -- The new values stand behind those that the key has.
    subst heq
    refine ⟨old ++ values, ?_, List.prefix_append old values⟩
    simp [ChordNode.extendKey, ChordNode.valuesAt, hk]
  · refine ⟨old, ?_, List.prefix_refl old⟩
    rw [← hk]
    exact AList.lookup_insert_ne heq

/-- A write that leaves the data, the loads and the id alone. -/
theorem allows_frame {update : ChordNode → ChordNode} (hdata : ∀ n, (update n).data = n.data)
    (hloads : ∀ n, (update n).nodeLoads = n.nodeLoads)
    (hinfo : ∀ n, (update n).info = n.info) : Allows OwnLoadOnly DataExtends update := by
  intro n hn
  constructor
  · intro id load h
    rw [hloads] at h
    rw [hinfo]
    exact hn id load h
  · intro key values h
    rw [hdata]
    exact ⟨values, h, List.prefix_refl values⟩

/-- Recording a load of at most 1 under the own id. -/
theorem allows_updateNodeLoad {load : ℚ} (hload : load ≤ 1) :
    Allows OwnLoadOnly DataExtends fun n => n.updateNodeLoad n.info.id load := by
  intro n hn
  refine ⟨?_, DataExtends.refl n⟩
  intro id recorded h
  simp only [ChordNode.updateNodeLoad] at h
  split at h
  · -- The entry that was just written is the own one.
    next hid =>
    cases h
    exact ⟨hid, hload⟩
  · exact hn id recorded h

end Sections

/-- A node that has recorded no load but its own, of at most 1, has no target for a migration: the
other nodes count as fully loaded. -/
theorem migrationTarget_eq_none {n : ChordNode} (h : OwnLoadOnly n)
    (replicaNodes : List NodeInfo) : n.migrationTarget replicaNodes = none := by
  unfold ChordNode.migrationTarget
  cases hleast : (replicaNodes.filter fun r => r.id ≠ n.info.id).argmin (n.loadOf 1) with
  | none => rfl
  | some leastLoaded =>
    have hmem : leastLoaded ∈ replicaNodes.filter fun r => r.id ≠ n.info.id :=
      List.argmin_mem hleast
    -- The target is another node, so no load of it is recorded and it counts as 1.
    have hother : leastLoaded.id ≠ n.info.id := by
      simpa using (List.mem_filter.mp hmem).2
    have htarget : n.loadOf 1 leastLoaded = 1 := by
      unfold ChordNode.loadOf
      cases hload : n.nodeLoads leastLoaded.id with
      | none => rfl
      | some load => exact absurd (h _ _ hload).1 hother
    have hown : n.loadOf 0 n.info ≤ 1 := by
      unfold ChordNode.loadOf
      cases hload : n.nodeLoads n.info.id with
      | none => exact zero_le_one
      | some load => exact (h _ _ hload).2
    -- A migration needs a target that is less loaded by more than 0.2, and no load is above 1.
    have hstay : ¬n.loadOf 1 leastLoaded < n.loadOf 0 n.info - 2 / 10 := by
      rw [htarget]
      linarith
    exact if_neg hstay

/-- What the tasks write only appends to the data, and keeps the loads. -/
theorem ownLoad_taskRules : TaskRules OwnLoadOnly DataExtends where
  refl := DataExtends.refl
  trans _ _ _ h h' := h.trans h'
  extendKey _ _ _ hn := ⟨hn, dataExtends_extendKey⟩
  removeKey _ := by
    -- No state with the invariant has a target for a migration.
    rintro ⟨n, nodes, hn, htarget⟩
    exact absurd (migrationTarget_eq_none hn nodes) htarget
  setSuccessor _ _ := allows_frame (fun _ => rfl) (fun _ => rfl) fun _ => rfl
  setSuccessorList _ _ := allows_frame (fun _ => rfl) (fun _ => rfl) fun _ => rfl
  setPredecessor _ _ := allows_frame (fun _ => rfl) (fun _ => rfl) fun _ => rfl
  setFinger _ _ := allows_frame (fun _ => rfl) (fun _ => rfl) fun _ => rfl
  setMetrics _ := allows_frame (fun _ => rfl) (fun _ => rfl) fun _ => rfl
  updateNodeLoad _ hload := allows_updateNodeLoad hload

/-- Every task keeps the invariant of the loads and only appends to the data. -/
theorem NodeTask.keeps (task : NodeTask) : Keeps task.prog := by
  by_cases hnone : task = .join none
  · -- The three writes of a new network leave the data alone.
    subst hnone
    have hwrite {update : ChordNode → ChordNode} (hdata : ∀ n, (update n).data = n.data)
        (hloads : ∀ n, (update n).nodeLoads = n.nodeLoads)
        (hinfo : ∀ n, (update n).info = n.info) : Keeps (Prog.write update) :=
      TaskRules.write (allows_frame hdata hloads hinfo)
    exact (hwrite (fun _ => rfl) (fun _ => rfl) fun _ => rfl).next fun _ =>
      (hwrite (fun _ => rfl) (fun _ => rfl) fun _ => rfl).next fun _ =>
        hwrite (fun _ => rfl) (fun _ => rfl) fun _ => rfl
  · exact ownLoad_taskRules.task hnone

/-- In every run of the tasks of a new node, in any interleaving and with any replies, a key that is
there at some time is there at all later times, and its list at the earlier time is a prefix of its
list at the later time. No key ever has a target to migrate to. -/
theorem data_append_only (sha1 : List UInt8 → NodeId) (address apiAddress : String)
    (events later : List (PoolEvent NodeTask (Option DhtMessage))) :
    let run := Pool.run NodeTask.prog ⟨ChordNode.new sha1 address apiAddress, []⟩
    (∀ key values, (run events).state.data.lookup key = some values →
      ∃ values', (run (events ++ later)).state.data.lookup key = some values' ∧
        values <+: values') ∧
    ∀ replicaNodes, (run events).state.migrationTarget replicaNodes = none := by
  intro run
  -- A new node has recorded no load at all.
  have hnew : OwnLoadOnly (ChordNode.new sha1 address apiAddress) := by
    intro id load h
    cases h
  have htrans : ∀ n n' n'', DataExtends n n' → DataExtends n' n'' → DataExtends n n'' :=
    fun _ _ _ h h' => h.trans h'
  obtain ⟨hloads, hdata⟩ := Pool.run_spec DataExtends.refl htrans NodeTask.keeps hnew events later
  exact ⟨hdata, migrationTarget_eq_none hloads⟩

end TaceChat
