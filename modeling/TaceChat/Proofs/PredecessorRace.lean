import Mathlib.Data.List.Induction
import TaceChat.Model.PredecessorChecks
import TaceChat.Proofs.Rounds

/-!
# When a fresh predecessor is erased

An operation clears the predecessor some time after it has read the node, and does not look at the
predecessor again. `PointerState.Tracked` says what each operation's history tells about the
predecessor that is installed: if a notification was the last write since the operation has read,
its node is installed, and if nothing was written since, then what the operation has read is.
`predecessor_kept_iff` is the consequence for whole runs.
-/

set_option autoImplicit false

namespace TaceChat

namespace PointerState

variable {s : PointerState} {i : ℕ} {pingAnswered : Bool}

/-- The step sets back a predecessor that a notification has installed, and is not the clear of a
`check_predecessor` that has read this predecessor and whose ping of it has failed. -/
def WronglyErases (s : PointerState) (i : ℕ) (pingAnswered : Bool) : Prop :=
  ∃ q t, s.installed = some q ∧ s.node.predecessor = some q ∧ s.tasks[i]? = some t ∧
    (s.step (.advance i pingAnswered)).node.predecessor = none ∧ t.phase ≠ .unreachable q

/-- If the operation clears the predecessor next, then the last write since it has read is not a
notification, or it is the notification of the node that it has read and pinged. -/
def Calm (s : PointerState) (i : ℕ) : Prop :=
  ∀ t, s.tasks[i]? = some t → t.phase.write s.node = some .cleared →
    ∀ q, t.since = some (.accepted q) → t.phase = .unreachable q

/-- What the history of an operation tells about the predecessor that is installed. -/
def TaskTracked (installed : Option NodeInfo) (t : PointerTask) : Prop :=
  match t.phase with
  | .pinging p | .unreachable p =>
    match t.since with
    | some (.accepted q) => installed = some q
    | some .cleared => installed = none
    | none => ∀ q, installed = some q → q = p
  | .alone =>
    match t.since with
    | some (.accepted q) => installed = some q
    | some .cleared | none => installed = none
  | .check | .stabilize | .notify _ | .ended => True

/-- The invariant of all runs: the histories match the node and the operations. -/
structure Tracked (s : PointerState) : Prop where
  predecessor : ∀ q, s.installed = some q → s.node.predecessor = some q
  /-- A node that has accepted a notification is not its own successor any more. -/
  successor : s.installed ≠ none → s.node.info.id ≠ s.node.successor.id
  tasks : ∀ t ∈ s.tasks, TaskTracked s.installed t

/-! ### The programs of the operations -/

/-- The phases of `check_predecessor` and of `stabilize` follow their programs: the next step of the
program in a phase changes the node as the phase says, and leads to the program of the next
phase. -/
theorem prog_step {phase : PointerPhase} (hphase : ∀ nPrime, phase ≠ .notify nPrime)
    (n : ChordNode) (reply : Option DhtMessage) :
    (phase.prog.step n reply).1 = (phase.step n (reply = some .pong)).1 ∧
      ((phase.step n (reply = some .pong)).2 ≠ .ended →
        (phase.prog.step n reply).2 = (phase.step n (reply = some .pong)).2.prog) := by
  cases phase with
  | check =>
    obtain ⟨_, _, _, predecessor, _, _, _, _, _⟩ := n
    cases predecessor with
    | none => exact ⟨rfl, fun hne => absurd rfl hne⟩
    | some p => exact ⟨rfl, fun _ => rfl⟩
  | pinging p =>
    refine ⟨rfl, ?_⟩
    intro hne
    cases reply with
    | none => rfl
    | some m =>
      cases m with
      | pong => exact absurd rfl hne
      | _ => rfl
  | unreachable p => exact ⟨rfl, fun hne => absurd rfl hne⟩
  | stabilize =>
    refine ⟨rfl, ?_⟩
    intro hne
    -- The phase goes on only where the node is its own successor.
    have hself : n.info.id = n.successor.id := by
      by_contra hother
      exact hne (if_neg hother)
    show (if n.info.id = n.successor.id then _ else _ : NodeProg Unit) =
      (if n.info.id = n.successor.id then PointerPhase.alone else .ended).prog
    rw [if_pos hself, if_pos hself]
    rfl
  | alone => exact ⟨rfl, fun hne => absurd rfl hne⟩
  | notify nPrime => exact absurd rfl (hphase nPrime)
  | ended => exact ⟨rfl, fun hne => absurd rfl hne⟩

/-- The program of a notification reads the id of the node, and changes the node in its second
section. -/
theorem notify_prog_step (nPrime : NodeInfo) {n n' : ChordNode} (reply : Option DhtMessage)
    (hinfo : n'.info = n.info) :
    (((PointerPhase.notify nPrime).prog.step n reply).2.step n' reply).1 =
      RingState.handleNotify n' nPrime := by
  show ((if nPrime.id = n.info.id then _ else _ : NodeProg Unit).step n' reply).1 =
    if nPrime.id = n'.info.id then n' else (n'.notifyUpdate nPrime).getD n'
  rw [hinfo]
  split
  · rfl
  · rfl

/-! ### One step -/

/-- The step of an operation is the event that names it. -/
theorem step_advance {t : PointerTask} (hi : s.tasks[i]? = some t) :
    s.step (.advance i pingAnswered) = s.advance i pingAnswered t := by
  simp only [PointerState.step, hi]

/-- A number without an operation. -/
theorem step_advance_none (hi : s.tasks[i]? = none) :
    s.step (.advance i pingAnswered) = s := by
  simp only [PointerState.step, hi]

/-- A write is known to the operations that do not take the step. -/
theorem TaskTracked.note {installed : Option NodeInfo} {t : PointerTask}
    (h : TaskTracked installed t) (write : Option PredecessorWrite) :
    TaskTracked (installedAfter installed write) (PointerState.note write t) := by
  obtain ⟨phase, since⟩ := t
  cases write with
  | none => exact h
  | some write =>
    -- Only the phases that clear later carry a history. A write just replaces it.
    cases phase with
    | pinging p => cases write <;> rfl
    | unreachable p => cases write <;> rfl
    | alone => cases write <;> rfl
    | check | stabilize | notify | ended => trivial

/-- The phase that an operation steps into has the right history. -/
theorem Tracked.stepped (h : Tracked s) {t : PointerTask} (ht : t ∈ s.tasks) :
    TaskTracked (installedAfter s.installed (t.phase.write s.node))
      ⟨(t.phase.step s.node pingAnswered).2, sinceAfter t⟩ := by
  have htask := h.tasks t ht
  obtain ⟨phase, since⟩ := t
  cases phase with
  | check =>
    simp only [PointerPhase.step]
    cases hp : s.node.predecessor with
    | none => trivial
    | some p =>
      -- Nothing was written since the operation has read, so an installed predecessor is the one it
      -- reads.
      intro q hq
      have hpred := h.predecessor q hq
      rw [hp] at hpred
      exact (Option.some.inj hpred).symm
  | pinging p =>
    cases pingAnswered with
    | true => trivial
    | false => exact htask
  | stabilize =>
    simp only [PointerPhase.step]
    split
    · next hself =>
      -- The node is its own successor, so no notification has been accepted yet.
      by_contra hinstalled
      exact h.successor hinstalled hself
    · trivial
  | unreachable p => trivial
  | alone => trivial
  | notify nPrime => trivial
  | ended => trivial

/-- What a notification does to the node, and what it notes as its write. -/
theorem handleNotify_cases (n : ChordNode) (nPrime : NodeInfo) :
    (nPrime.id ≠ n.info.id ∧ (PointerPhase.notify nPrime).write n = some (.accepted nPrime) ∧
      n.notifyUpdate nPrime = some (RingState.handleNotify n nPrime)) ∨
    ((PointerPhase.notify nPrime).write n = none ∧ RingState.handleNotify n nPrime = n) := by
  unfold PointerPhase.write RingState.handleNotify
  by_cases hid : nPrime.id = n.info.id
  · exact Or.inr (by simp [hid])
  · cases hupdate : n.notifyUpdate nPrime with
    | none => exact Or.inr (by simp [hid, hupdate])
    | some updated => exact Or.inl (by simp [hid, hupdate])

/-- The installed predecessor is the predecessor of the node after every step of an operation, and
the node is not its own successor then. -/
theorem Tracked.node (h : Tracked s) (pingAnswered : Bool) (phase : PointerPhase) :
    (∀ q, installedAfter s.installed (phase.write s.node) = some q →
      (phase.step s.node pingAnswered).1.predecessor = some q) ∧
    (installedAfter s.installed (phase.write s.node) ≠ none →
      (phase.step s.node pingAnswered).1.info.id ≠
        (phase.step s.node pingAnswered).1.successor.id) := by
  cases phase with
  | check =>
    simp only [PointerPhase.step]
    cases s.node.predecessor <;> exact ⟨h.predecessor, h.successor⟩
  | pinging p => exact ⟨h.predecessor, h.successor⟩
  | stabilize => exact ⟨h.predecessor, h.successor⟩
  | ended => exact ⟨h.predecessor, h.successor⟩
  | unreachable p => exact ⟨fun q hq => (by cases hq), fun hne => absurd rfl hne⟩
  | alone => exact ⟨fun q hq => (by cases hq), fun hne => absurd rfl hne⟩
  | notify nPrime =>
    obtain ⟨hid, hwrite, hupdate⟩ | ⟨hwrite, hsame⟩ := handleNotify_cases s.node nPrime
    · -- An accepted notification gives a node that was alone another successor.
      rw [hwrite]
      show (∀ q, some nPrime = some q →
          (RingState.handleNotify s.node nPrime).predecessor = some q) ∧
        (some nPrime ≠ none → (RingState.handleNotify s.node nPrime).info.id ≠
          (RingState.handleNotify s.node nPrime).successor.id)
      unfold ChordNode.notifyUpdate at hupdate
      rw [Option.ite_none_right_eq_some] at hupdate
      obtain ⟨-, hnode⟩ := hupdate
      rw [← Option.some.inj hnode]
      refine ⟨fun q hq => hq, ?_⟩
      intro _
      by_cases hself : s.node.successor.id = s.node.info.id
      · simpa [hself] using Ne.symm hid
      · simpa [hself] using Ne.symm hself
    · rw [hwrite]
      show (∀ q, s.installed = some q →
          (RingState.handleNotify s.node nPrime).predecessor = some q) ∧
        (s.installed ≠ none → (RingState.handleNotify s.node nPrime).info.id ≠
          (RingState.handleNotify s.node nPrime).successor.id)
      rw [hsame]
      exact ⟨h.predecessor, h.successor⟩

/-- The invariant is kept by every event. -/
theorem Tracked.step (h : Tracked s) (event : PointerEvent) : Tracked (s.step event) := by
  cases event with
  | start op =>
    refine ⟨h.predecessor, h.successor, ?_⟩
    intro t ht
    rcases List.mem_append.mp ht with ht | ht
    · exact h.tasks t ht
    · rw [List.mem_singleton.mp ht]
      cases op <;> trivial
  | advance i pingAnswered =>
    cases hi : s.tasks[i]? with
    | none =>
      rw [step_advance_none hi]
      exact h
    | some t =>
      rw [step_advance hi]
      -- The other operations note the write, and the one that steps starts a new history when it
      -- reads.
      obtain ⟨hpredecessor, hsuccessor⟩ := h.node pingAnswered t.phase
      refine ⟨hpredecessor, hsuccessor, ?_⟩
      intro t' ht'
      rcases List.mem_or_eq_of_mem_set ht' with hother | rfl
      · obtain ⟨t'', hmem, rfl⟩ := List.mem_map.mp hother
        exact (h.tasks t'' hmem).note _
      · exact h.stepped (List.mem_of_getElem? hi)

/-- The invariant holds after every run. -/
theorem tracked_run (node : ChordNode) (events : List PointerEvent) :
    Tracked (run node events) := by
  induction events using List.reverseRecOn with
  | nil =>
    refine ⟨?_, ?_, ?_⟩
    · intro q hq
      cases hq
    · intro hne
      exact absurd rfl hne
    · intro t ht
      cases ht
  | append_singleton events event ih =>
    have heq : run node (events ++ [event]) = (run node events).step event := List.foldl_append
    rw [heq]
    exact ih.step event

/-! ### Erased predecessors -/

/-- The operations that clear the predecessor next. -/
theorem write_eq_cleared {n : ChordNode} {phase : PointerPhase} :
    phase.write n = some .cleared ↔ (∃ p, phase = .unreachable p) ∨ phase = .alone := by
  cases phase with
  | unreachable p => simp [PointerPhase.write]
  | alone => simp [PointerPhase.write]
  | notify nPrime =>
    obtain ⟨-, hwrite, -⟩ | ⟨hwrite, -⟩ := handleNotify_cases n nPrime
    · simp [hwrite]
    · simp [hwrite]
  | check | pinging | stabilize | ended => simp [PointerPhase.write]

/-- A step that sets the predecessor of a node back is a clear. -/
theorem write_of_cleared {n : ChordNode} {phase : PointerPhase} {q : NodeInfo}
    (hq : n.predecessor = some q) (hnone : (phase.step n pingAnswered).1.predecessor = none) :
    phase.write n = some .cleared := by
  cases phase with
  | unreachable p => rfl
  | alone => rfl
  | check =>
    simp only [PointerPhase.step, hq] at hnone
    cases hnone
  | notify nPrime =>
    -- A notification only ever installs a predecessor.
    have hafter : (RingState.handleNotify n nPrime).predecessor = none := hnone
    obtain ⟨-, -, hupdate⟩ | ⟨-, hsame⟩ := handleNotify_cases n nPrime
    · rw [(ChordNode.notifyUpdate_frame hupdate).1] at hafter
      cases hafter
    · rw [hsame, hq] at hafter
      cases hafter
  | pinging p | stabilize | ended =>
    have hafter : n.predecessor = none := hnone
    rw [hq] at hafter
    cases hafter

/-- A clear sets the predecessor back. -/
theorem predecessor_of_write {n : ChordNode} {phase : PointerPhase}
    (hwrite : phase.write n = some .cleared) :
    (phase.step n pingAnswered).1.predecessor = none := by
  obtain ⟨p, rfl⟩ | rfl := write_eq_cleared.mp hwrite
  · rfl
  · rfl

/-- The predecessor that an operation clears is the one of the last notification since it has read.
Without one, it is what the operation itself has read. -/
theorem TaskTracked.installed_cleared {n : ChordNode} {installed : Option NodeInfo}
    {t : PointerTask} (h : TaskTracked installed t) (hwrite : t.phase.write n = some .cleared)
    {q : NodeInfo} :
    (t.since = some (.accepted q) → installed = some q) ∧
      (installed = some q → t.since = some (.accepted q) ∨ t.phase = .unreachable q) := by
  obtain ⟨phase, since⟩ := t
  obtain ⟨p, rfl⟩ | rfl := write_eq_cleared.mp hwrite
  · cases since with
    | none =>
      refine ⟨fun hsince => (by cases hsince), ?_⟩
      -- Without a write since the read, the installed predecessor is the one that was read.
      intro hinstalled
      exact Or.inr (by rw [h q hinstalled])
    | some write =>
      cases write with
      | cleared => simp [show installed = none from h]
      | accepted q' =>
        rw [show installed = some q' from h]
        simp only [Option.some.injEq, PredecessorWrite.accepted.injEq, imp_self, true_and]
        exact Or.inl
  · cases since with
    | none => simp [show installed = none from h]
    | some write =>
      cases write with
      | cleared => simp [show installed = none from h]
      | accepted q' => simp [show installed = some q' from h]

/-- In a state that a run reaches, a step erases a fresh predecessor wrongly if and only if it is
not calm. -/
theorem Tracked.wronglyErases_iff (h : Tracked s) :
    WronglyErases s i pingAnswered ↔ ¬Calm s i := by
  constructor
  · intro herases hcalm
    obtain ⟨q, t, hinstalled, hpredecessor, hi, hnone, hphase⟩ := herases
    rw [step_advance hi] at hnone
    -- The step clears an installed predecessor. Its history says which one the operation has read.
    have hwrite : t.phase.write s.node = some .cleared := write_of_cleared hpredecessor hnone
    have htask := h.tasks t (List.mem_of_getElem? hi)
    obtain hsince | hread := (htask.installed_cleared hwrite).2 hinstalled
    · exact hphase (hcalm t hi hwrite q hsince)
    · exact hphase hread
  · intro hcalm
    simp only [Calm, not_forall] at hcalm
    obtain ⟨t, hi, hwrite, q, hsince, hphase⟩ := hcalm
    have htask := h.tasks t (List.mem_of_getElem? hi)
    -- The last write was a notification, so its node is installed and is erased by the clear.
    have hinstalled : s.installed = some q := (htask.installed_cleared hwrite).1 hsince
    refine ⟨q, t, hinstalled, h.predecessor q hinstalled, hi, ?_, hphase⟩
    rw [step_advance hi]
    exact predecessor_of_write hwrite

/-- In every run from every state of the node, no predecessor that a notification has installed is
erased wrongly if and only if every clear is calm: since the operation has read the node, the last
write to the predecessor, if any, was not a notification, or it was the notification of the very
node that it has read and pinged. -/
theorem predecessor_kept_iff (node : ChordNode) (events : List PointerEvent) :
    (∀ earlier i pingAnswered, earlier ++ [.advance i pingAnswered] <+: events →
      ¬WronglyErases (run node earlier) i pingAnswered) ↔
    ∀ earlier i pingAnswered, earlier ++ [.advance i pingAnswered] <+: events →
      Calm (run node earlier) i := by
  have hiff : ∀ earlier i pingAnswered,
      ¬WronglyErases (run node earlier) i pingAnswered ↔ Calm (run node earlier) i := by
    intro earlier i pingAnswered
    rw [(tracked_run node earlier).wronglyErases_iff, not_not]
  simp only [hiff]

/-- A node that reads its predecessor and pings it, accepts a notification meanwhile, and clears the
new predecessor when the ping of the old one fails. -/
theorem not_predecessor_kept :
    ¬∀ (node : ChordNode) (events : List PointerEvent) (earlier : List PointerEvent) (i : ℕ)
      (pingAnswered : Bool), earlier ++ [.advance i pingAnswered] <+: events →
        ¬WronglyErases (run node earlier) i pingAnswered := by
  intro h
  let old : NodeInfo := ⟨biguintToNodeId 10, "10.0.0.1:8001", "10.0.0.1:80"⟩
  let fresh : NodeInfo := ⟨biguintToNodeId 20, "10.0.0.2:8001", "10.0.0.2:80"⟩
  let node : ChordNode :=
    { ChordNode.new (fun _ => biguintToNodeId 30) "10.0.0.3:8001" "10.0.0.3:80" with
      predecessor := some old
      successor := old }
  let earlier : List PointerEvent :=
    [.start .checkPredecessor, .advance 0 false, .start (.notify fresh), .advance 1 false,
      .advance 0 false]
  have herases : WronglyErases (run node earlier) 0 false :=
    ⟨fresh, ⟨.unreachable old, some (.accepted fresh)⟩, by decide +kernel, by decide +kernel,
      by decide +kernel, by decide +kernel, by decide +kernel⟩
  exact h node (earlier ++ [.advance 0 false]) earlier 0 false (List.prefix_refl _) herases

end PointerState

end TaceChat
