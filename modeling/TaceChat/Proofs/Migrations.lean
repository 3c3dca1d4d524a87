import TaceChat.Model.Migration
import TaceChat.Proofs.IdNetwork
import TaceChat.Proofs.ReadOnly
import TaceChat.Proofs.Replicas

/-!
# What a migration holds

`migrate_key_to_node` takes all values of the key out of the data before it sends the first one. So
for a while a value is neither at the node nor at the target (`migration_hides`): the migration has
it in hand. `InHand` reads what the migration has in hand from its program, which determines it
(`InHand.unique`). Together with what the node holds and what the target has accepted, no value gets
lost at any step (`Migrating.step`), and when the migration has ended it has nothing in hand any
more (`migration_keeps`).
-/

set_option autoImplicit false

namespace TaceChat

open Prog

/-! ### In hand -/

/-- One turn of the loop of `migrate_key_to_node`. -/
def migrateValue (key : NodeId) (target : NodeInfo) (value : Value) : NodeProg Unit := do
  match ← Concurrent.callNode target.address (.store key value) with
  | some _ => return ()
  | none => write fun n => n.extendKey key [value]

/-- The values that a migration has taken out and has neither delivered nor put back: those from the
one that it sends or puts back on. -/
inductive InHand (key : NodeId) (target : NodeInfo) : NodeProg Unit → List Value → Prop
  /-- The migration has not begun. -/
  | waiting : InHand key target (Concurrent.migrateKeyToNode key target) []
  /-- It goes on with the send of the first value. Without any value it has ended. -/
  | sending (values : List Value) : InHand key target (forM values (migrateValue key target)) values
  /-- The send has failed, and the value is put back next. -/
  | restoring (value : Value) (values : List Value) :
    InHand key target
      (write (fun n => n.extendKey key [value]) >>= fun _ => forM values (migrateValue key target))
      (value :: values)

variable {key : NodeId} {target : NodeInfo}

/-- A migration that has ended has nothing in hand. -/
theorem InHand.of_ended {p : NodeProg Unit} {values : List Value} (h : InHand key target p values)
    (hended : p.ended = true) : values = [] := by
  cases h with
  | waiting => rfl
  | sending values =>
    cases values with
    | nil => rfl
    | cons value values => exact absurd hended Bool.false_ne_true
  | restoring value values => exact absurd hended Bool.false_ne_true

/-- The first section takes out all values of the key. -/
theorem migrateKeyToNode_step (n : ChordNode) (reply : Option DhtMessage) :
    (Concurrent.migrateKeyToNode key target).step n reply =
      (n.removeKey key, forM (n.valuesAt key) (migrateValue key target)) := by
  show (n.removeKey key, _) = _
  unfold ChordNode.valuesAt
  cases hlookup : n.data.lookup key with
  | none =>
    simp only [Prog.bind, hlookup]
    rfl
  | some values =>
    simp only [Prog.bind, hlookup]
    rfl

/-- Nothing is left under a key that is removed. -/
@[simp] theorem valuesAt_removeKey (n : ChordNode) : (n.removeKey key).valuesAt key = [] := by
  simp [ChordNode.valuesAt, ChordNode.removeKey]

/-- Different values are sent by different programs. -/
theorem forM_migrateValue_inj : ∀ {values values' : List Value},
    (forM values (migrateValue key target) : NodeProg Unit) =
      forM values' (migrateValue key target) → values = values'
  | [], [], _ => rfl
  | [], _ :: _, h => absurd (congrArg Prog.ended h).symm Bool.false_ne_true
  | _ :: _, [], h => absurd (congrArg Prog.ended h) Bool.false_ne_true
  | value :: values, value' :: values', h => by
    obtain ⟨hmessage, hnext⟩ := Prog.request.inj h
    cases hmessage
    rw [forM_migrateValue_inj (congrFun hnext (some .pong))]

/-- The loop begins with a request or has ended. -/
theorem forM_migrateValue_ne_sect (values : List Value) (update : ChordNode → ChordNode)
    (next : ChordNode → NodeProg Unit) :
    forM values (migrateValue key target) ≠ Prog.sect update next := by
  intro h
  cases values with
  | nil => cases h
  | cons value values => cases h

/-- The program of a migration determines what it has in hand. -/
theorem InHand.unique {p : NodeProg Unit} {values values' : List Value}
    (h : InHand key target p values) (h' : InHand key target p values') : values = values' := by
  -- What a section that puts a value back leaves under the key.
  have hput (n : ChordNode) (value : Value) :
      (n.extendKey key [value]).valuesAt key = n.valuesAt key ++ [value] :=
    ChordNode.valuesAt_extendKey
  generalize hp : p = q at h'
  cases h with
  | waiting =>
    cases h' with
    | waiting => rfl
    | sending values' => exact absurd hp.symm (forM_migrateValue_ne_sect values' _ _)
    | restoring value values' =>
      have hupdate := congrFun (Prog.sect.inj hp).1 (ChordNode.new (fun _ => key) "" "")
      have hvalues := hput (ChordNode.new (fun _ => key) "" "") value
      rw [← hupdate, valuesAt_removeKey] at hvalues
      simp at hvalues
  | sending values =>
    cases h' with
    | waiting => exact absurd hp (forM_migrateValue_ne_sect values _ _)
    | sending values' => exact forM_migrateValue_inj hp
    | restoring value values' => exact absurd hp (forM_migrateValue_ne_sect values _ _)
  | restoring value values =>
    cases h' with
    | waiting =>
      have hupdate := congrFun (Prog.sect.inj hp).1 (ChordNode.new (fun _ => key) "" "")
      have hvalues := hput (ChordNode.new (fun _ => key) "" "") value
      rw [hupdate, valuesAt_removeKey] at hvalues
      simp at hvalues
    | sending values' => exact absurd hp.symm (forM_migrateValue_ne_sect values' _ _)
    | restoring value' values' =>
      have hupdate := congrFun (Prog.sect.inj hp).1 (ChordNode.new (fun _ => key) "" "")
      have hnext := congrFun (Prog.sect.inj hp).2 (ChordNode.new (fun _ => key) "" "")
      have hvalues := hput (ChordNode.new (fun _ => key) "" "") value
      rw [hupdate, hput, List.append_cancel_left_eq, List.cons.injEq] at hvalues
      rw [hvalues.1, forM_migrateValue_inj hnext]

/-- The number of copies of a value at the node, at the target and in hand. -/
def copiesOf (key : NodeId) (s : Migration) (inHand : List Value) (v : Value) : ℕ :=
  (s.held key).count v + s.accepted.count v + inHand.count v

/-- One step of the migration loses no value. -/
theorem InHand.step {p : NodeProg Unit} {values : List Value} (h : InHand key target p values)
    (n : ChordNode) (accepted : List Value) (delivery : Delivery) (response : DhtMessage) :
    ∃ values', InHand key target (p.step n (delivery.reply response)).2 values' ∧
      ∀ v, (n.valuesAt key).count v + accepted.count v + values.count v ≤
        ((p.step n (delivery.reply response)).1.valuesAt key).count v +
          (if delivery = .notDelivered then accepted
            else accepted ++ acceptedBy key target p.pending).count v + values'.count v := by
  have hmore : ∀ v, accepted.count v ≤ (if delivery = .notDelivered then accepted
      else accepted ++ acceptedBy key target p.pending).count v := by
    intro v
    split
    · exact Nat.le_refl _
    · rw [List.count_append]
      omega
  cases h with
  | waiting =>
    rw [migrateKeyToNode_step]
    refine ⟨n.valuesAt key, .sending _, ?_⟩
    intro v
    have := hmore v
    rw [valuesAt_removeKey, List.count_nil]
    omega
  | sending values =>
    cases values with
    | nil =>
      refine ⟨[], .sending [], ?_⟩
      intro v
      have := hmore v
      show (n.valuesAt key).count v + _ + _ ≤ (n.valuesAt key).count v + _ + _
      omega
    | cons value values =>
      by_cases hanswered : delivery = .answered
      · -- What is answered was accepted.
        subst hanswered
        refine ⟨values, .sending values, ?_⟩
        intro v
        have hpending : acceptedBy key target
            (forM (value :: values) (migrateValue key target)).pending = [value] :=
          if_pos ⟨rfl, rfl⟩
        rw [if_neg (by decide), hpending, List.count_append, List.count_cons, List.count_cons,
          List.count_nil]
        show (n.valuesAt key).count v + _ + _ ≤ (n.valuesAt key).count v + _ + _
        omega
      · have hreply : delivery.reply response = none := if_neg hanswered
        rw [hreply]
        refine ⟨value :: values, .restoring value values, ?_⟩
        intro v
        have := hmore v
        show (n.valuesAt key).count v + _ + _ ≤ (n.valuesAt key).count v + _ + _
        omega
  | restoring value values =>
    refine ⟨values, .sending values, ?_⟩
    intro v
    have := hmore v
    show _ ≤ ((n.extendKey key [value]).valuesAt key).count v + _ + _
    rw [ChordNode.valuesAt_extendKey, List.count_append, List.count_cons, List.count_cons,
      List.count_nil]
    omega

/-! ### Other accesses to the key -/

/-- No value has fewer copies under the key. -/
def Grows (key : NodeId) (n n' : ChordNode) : Prop :=
  ∀ v, (n.valuesAt key).count v ≤ (n'.valuesAt key).count v

/-- The same values. -/
theorem Grows.refl (n : ChordNode) : Grows key n n := fun _ => Nat.le_refl _

/-- An append loses nothing. -/
theorem grows_extendKey (n : ChordNode) (values : List Value) :
    Grows key n (n.extendKey key values) := by
  intro v
  rw [ChordNode.valuesAt_extendKey, List.count_append]
  exact Nat.le_add_right _ _

/-- The other accesses append or read. -/
theorem KeyTask.spec (task : KeyTask) :
    Spec (fun _ => True) (Grows key) (task.prog key) fun _ => True := by
  have happend (values : List Value) : Spec (fun _ => True) (Grows key)
      (write fun n => n.extendKey key values : NodeProg Unit) fun _ => True :=
    fun n _ => ⟨trivial, grows_extendKey n values, trivial⟩
  cases task with
  | store value =>
    exact (happend [value]).next fun _ =>
      (Concurrent.reads_replicateData key [value]).spec Grows.refl
  | replicateData values replicaId =>
    have h : Spec (fun _ => True) (Grows key)
        (Concurrent.handleReplicateData key values replicaId) fun _ => True :=
      (happend values).next fun _ => trivial
    exact h.discard
  | retrieve => exact ((Concurrent.reads_retrieve key).spec Grows.refl).discard

/-! ### Runs -/

namespace Migration

/-- The first program is the migration, and the others are accesses to its key. -/
structure Migrating (key : NodeId) (target : NodeInfo) (s : Migration) (p : NodeProg Unit)
    (inHand : List Value) : Prop where
  first : ∃ others, s.pool.progs = p :: others ∧
    ∀ q ∈ others, q.Spec (fun _ => True) (Grows key) fun _ => True
  inHand : InHand key target p inHand

variable {s : Migration} {p : NodeProg Unit} {inHand : List Value}

/-- The migration starts with nothing in hand. -/
theorem migrating_start (n : ChordNode) (key : NodeId) (target : NodeInfo) :
    Migrating key target (start n key target) (Concurrent.migrateKeyToNode key target) [] :=
  ⟨⟨[], rfl, by intro q hq; cases hq⟩, .waiting⟩

/-- What is accepted stays accepted. -/
theorem count_accepted_le (delivery : Delivery) (more : List Value) (v : Value) :
    s.accepted.count v ≤
      (if delivery = .notDelivered then s.accepted else s.accepted ++ more).count v := by
  split
  · exact Nat.le_refl _
  · rw [List.count_append]
    exact Nat.le_add_right _ _

/-- No step of any program loses a value. -/
theorem Migrating.step (h : Migrating key target s p inHand) (event : MigrationEvent) :
    ∃ p' inHand', Migrating key target (s.step key target event) p' inHand' ∧
      ∀ v, copiesOf key s inHand v ≤ copiesOf key (s.step key target event) inHand' v := by
  obtain ⟨others, hprogs, hothers⟩ := h.first
  cases event with
  | start task =>
    refine ⟨p, inHand, ⟨⟨others ++ [task.prog key], ?_, ?_⟩, h.inHand⟩, fun _ => Nat.le_refl _⟩
    · show s.pool.progs ++ [task.prog key] = _
      rw [hprogs]
      rfl
    · intro q hq
      rcases List.mem_append.mp hq with hq | hq
      · exact hothers q hq
      · rw [List.mem_singleton.mp hq]
        exact task.spec
  | advance i delivery response =>
    cases i with
    | zero =>
      -- The migration takes its step.
      obtain ⟨inHand', hin, hcopies⟩ :=
        h.inHand.step s.pool.state s.accepted delivery response
      have hzero : s.pool.progs[0]? = some p := by rw [hprogs]; rfl
      have hpending : s.pool.pendingAt 0 = p.pending := by rw [Pool.pendingAt, hzero]; rfl
      refine ⟨_, inHand', ⟨⟨others, ?_, hothers⟩, hin⟩, ?_⟩
      · rw [Migration.step, Pool.step_advance hzero, Pool.advance, hprogs, List.set_cons_zero]
      · intro v
        have hv := hcopies v
        rw [← hpending] at hv
        rw [Migration.step, Pool.step_advance hzero]
        exact hv
    | succ i =>
      -- Another program takes its step, which leaves the migration alone.
      have hsucc : s.pool.progs[i + 1]? = others[i]? := by rw [hprogs]; rfl
      have haccepted := count_accepted_le (s := s) delivery
        (acceptedBy key target (s.pool.pendingAt (i + 1)))
      cases hi : others[i]? with
      | none =>
        rw [hi] at hsucc
        refine ⟨p, inHand, ⟨⟨others, ?_, hothers⟩, h.inHand⟩, ?_⟩
        · rw [Migration.step, Pool.step_advance_none hsucc, hprogs]
        · intro v
          have hv := haccepted v
          rw [Migration.step, Pool.step_advance_none hsucc]
          simp only [copiesOf, held]
          omega
      | some q =>
        rw [hi] at hsucc
        obtain ⟨-, hgrows, hrest⟩ := (hothers q (List.mem_of_getElem? hi)).step Grows.refl
          (s := s.pool.state) trivial (delivery.reply response)
        refine ⟨p, inHand,
          ⟨⟨others.set i (q.step s.pool.state (delivery.reply response)).2, ?_, ?_⟩, h.inHand⟩, ?_⟩
        · rw [Migration.step, Pool.step_advance hsucc, Pool.advance, hprogs, List.set_cons_succ]
        · intro q' hq'
          rcases List.mem_or_eq_of_mem_set hq' with hq' | rfl
          · exact hothers q' hq'
          · exact hrest
        · intro v
          have hv := haccepted v
          have hv' := hgrows v
          rw [Migration.step, Pool.step_advance hsucc, Pool.advance]
          simp only [copiesOf, held]
          omega

/-- No run loses a value. -/
theorem Migrating.run (events : List MigrationEvent) :
    ∀ {s : Migration} {p : NodeProg Unit} {inHand : List Value}, Migrating key target s p inHand →
      ∃ p' inHand', Migrating key target (s.run key target events) p' inHand' ∧
        ∀ v, copiesOf key s inHand v ≤ copiesOf key (s.run key target events) inHand' v := by
  induction events with
  | nil => exact fun h => ⟨_, _, h, fun _ => Nat.le_refl _⟩
  | cons event events ih =>
    intro s p inHand h
    obtain ⟨p₁, inHand₁, h₁, hstep⟩ := h.step event
    obtain ⟨p₂, inHand₂, h₂, hrest⟩ := ih h₁
    exact ⟨p₂, inHand₂, h₂, fun v => Nat.le_trans (hstep v) (hrest v)⟩

end Migration

/-- The state of a run determines the program of the migration and what it has in hand. -/
theorem Migration.Migrating.unique {s : Migration} {p p' : NodeProg Unit}
    {values values' : List Value} (h : Migrating key target s p values)
    (h' : Migrating key target s p' values') :
    p = p' ∧ values = values' := by
  obtain ⟨others, hprogs, -⟩ := h.first
  obtain ⟨others', hprogs', -⟩ := h'.first
  have hp : p = p' := (List.cons.inj (hprogs.symm.trans hprogs')).1
  subst hp
  exact ⟨rfl, h.inHand.unique h'.inHand⟩

/-- A migration of a key runs beside any stores, replications and retrievals of the same key, and
any of its sends may fail. At every moment, what it has in hand are the values that it has taken out
and has neither delivered nor put back. From any moment to any later one, no copy of a value is
lost: each stays at the node, is accepted by the target, or is in hand. A migration that has ended
has nothing in hand. -/
theorem migration_keeps (n : ChordNode) (key : NodeId) (target : NodeInfo) :
    ∃ inHand : List MigrationEvent → List Value,
      (∀ events, ∃ p,
        ((Migration.start n key target).run key target events).pool.progs[0]? = some p ∧
        (∀ values, InHand key target p values ↔ values = inHand events) ∧
        (p.ended = true → inHand events = [])) ∧
      ∀ events later v,
        copiesOf key ((Migration.start n key target).run key target events) (inHand events) v ≤
          copiesOf key ((Migration.start n key target).run key target (events ++ later))
            (inHand (events ++ later)) v := by
  have hall : ∀ events, ∃ p values, Migration.Migrating key target
      ((Migration.start n key target).run key target events) p values := by
    intro events
    obtain ⟨p, values, h, -⟩ := (Migration.migrating_start n key target).run events
    exact ⟨p, values, h⟩
  choose p inHand h using hall
  refine ⟨inHand, ?_, ?_⟩
  · intro events
    obtain ⟨others, hprogs, -⟩ := (h events).first
    refine ⟨p events, by rw [hprogs]; rfl, ?_, (h events).inHand.of_ended⟩
    intro values
    constructor
    · exact fun hvalues => hvalues.unique (h events).inHand
    · intro heq
      rw [heq]
      exact (h events).inHand
  · intro events later v
    obtain ⟨p', values', h', hcopies⟩ := (h events).run later
    have happend : (Migration.start n key target).run key target (events ++ later) =
        ((Migration.start n key target).run key target events).run key target later :=
      List.foldl_append
    rw [← happend] at h' hcopies
    rw [((h (events ++ later)).unique h').2]
    exact hcopies v

/-- A node that holds a value under the key 5. -/
def holdingNode : ChordNode :=
  (linkedNode id (fun _ => none) (biguintToNodeId 10)).extendKey (biguintToNodeId 5) [[1]]

/-- The migration of the key to the node 20. -/
def migrationOfFive (events : List MigrationEvent) : Migration :=
  (Migration.start holdingNode (biguintToNodeId 5) (infoOf (biguintToNodeId 20))).run
    (biguintToNodeId 5) (infoOf (biguintToNodeId 20)) events

/-- `migration_keeps` for this migration and a send that the target handles, though the reply is
lost: the value is put back, and the migration has ended with one copy on each side. -/
theorem migration_keeps_replyLost :
    ((migrationOfFive []).held (biguintToNodeId 5)).count [1] ≤
      ((migrationOfFive [.advance 0 .answered .pong, .advance 0 .replyLost .pong,
        .advance 0 .answered .pong]).held (biguintToNodeId 5)).count [1] +
      (migrationOfFive [.advance 0 .answered .pong, .advance 0 .replyLost .pong,
        .advance 0 .answered .pong]).accepted.count [1] := by
  obtain ⟨inHand, hprog, hkeeps⟩ := migration_keeps holdingNode (biguintToNodeId 5)
    (infoOf (biguintToNodeId 20))
  obtain ⟨p, hp, -, hended⟩ := hprog [.advance 0 .answered .pong, .advance 0 .replyLost .pong,
    .advance 0 .answered .pong]
  have hlast : ((migrationOfFive [.advance 0 .answered .pong, .advance 0 .replyLost .pong,
      .advance 0 .answered .pong]).pool.progs[0]?).map Prog.ended = some true := by
    decide +kernel
  rw [migrationOfFive, hp, Option.map_some, Option.some.injEq] at hlast
  have hcopies := hkeeps [] [.advance 0 .answered .pong, .advance 0 .replyLost .pong,
    .advance 0 .answered .pong] [1]
  rw [List.nil_append, hended hlast] at hcopies
  unfold copiesOf at hcopies
  rw [List.count_nil] at hcopies
  unfold migrationOfFive
  omega

/-- After its first step the migration has the value in hand: it is neither at the node nor at the
target. -/
theorem migration_hides :
    [1] ∈ (migrationOfFive []).held (biguintToNodeId 5) ∧
      [1] ∉ (migrationOfFive [.advance 0 .answered .pong]).held (biguintToNodeId 5) ∧
      [1] ∉ (migrationOfFive [.advance 0 .answered .pong]).accepted := by
  decide +kernel

end TaceChat
