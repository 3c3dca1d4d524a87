import TaceChat.Library.Sections

/-!
# Contracts of programs with their environment

`Prog.Spec` lets every request get any reply. A contract restricts both sides of a request.
`Prog.Meets I asks answers p Q` says of a program `p` that runs among states with `I`: as long as
its requests get replies by `answers`, each of its sections keeps `I`, each of its requests
satisfies `asks`, and its result satisfies `Q`.

`Pool.Answered` is the condition on the events of a run that the replies are by `answers`.
`Pool.Meeting.step` is the rule for pools under this condition, and `Pool.Meeting.of_pending` is
what a pool then asks.
-/

set_option autoImplicit false

namespace Prog

variable {S Req Rep α β : Type}

/-- The request that a program waits with. -/
def pending : Prog S Req Rep α → Option Req
  | .request message _ => some message
  | _ => none

section Meets

variable (I : S → Prop) (asks : Req → Prop) (answers : Req → Rep → Prop)

/-- A program keeps `I` in its sections, makes requests with `asks` only, and ends with a result
with `Q`, as long as the replies have `answers`. -/
def Meets : Prog S Req Rep α → (α → Prop) → Prop
  | .done a, Q => Q a
  | .sect update next, Q => ∀ s, I s → I (update s) ∧ (next s).Meets Q
  | .request message next, Q => asks message ∧ ∀ r, answers message r → (next r).Meets Q

variable {I asks answers}

/-- A sequence meets a contract when its second part does wherever the first one ends. -/
@[simp] theorem meets_bind {p : Prog S Req Rep α} {f : α → Prog S Req Rep β} {Q : β → Prop} :
    Meets I asks answers (p >>= f) Q ↔
      Meets I asks answers p fun a => Meets I asks answers (f a) Q := by
  induction p with
  | done a => exact Iff.rfl
  | sect update next ih =>
    show (∀ s, I s → I (update s) ∧ Meets I asks answers (next s >>= f) Q) ↔ _
    simp only [ih]
    exact Iff.rfl
  | request message next ih =>
    show (asks message ∧ ∀ r, answers message r → Meets I asks answers (next r >>= f) Q) ↔ _
    simp only [ih]
    exact Iff.rfl

/-- A weaker postcondition. -/
theorem Meets.mono {p : Prog S Req Rep α} {Q Q' : α → Prop} (h : Meets I asks answers p Q)
    (hQ : ∀ a, Q a → Q' a) : Meets I asks answers p Q' := by
  induction p with
  | done a => exact hQ a h
  | sect update next ih =>
    intro s hs
    obtain ⟨hI, hnext⟩ := h s hs
    exact ⟨hI, ih s hnext⟩
  | request message next ih => exact ⟨h.1, fun r hr => ih r (h.2 r hr)⟩

/-- Sequencing by contract: `P` is what the first part leaves for the second. -/
theorem Meets.bind {p : Prog S Req Rep α} {f : α → Prog S Req Rep β} {P : α → Prop} {Q : β → Prop}
    (hp : Meets I asks answers p P) (hf : ∀ a, P a → Meets I asks answers (f a) Q) :
    Meets I asks answers (p >>= f) Q :=
  meets_bind.mpr (hp.mono hf)

/-- One step keeps the invariant and leaves a program with the same contract. -/
theorem Meets.step {p : Prog S Req Rep α} {Q : α → Prop} (h : Meets I asks answers p Q) {s : S}
    (hs : I s) {reply : Rep}
    (hreply : ∀ message, p.pending = some message → answers message reply) :
    I (p.step s reply).1 ∧ Meets I asks answers (p.step s reply).2 Q := by
  cases p with
  | done a => exact ⟨hs, h⟩
  | sect update next => exact h s hs
  | request message next => exact ⟨hs, h.2 reply (hreply message rfl)⟩

/-- What is read has the invariant. -/
theorem Meets.read_next {f : S → Prog S Req Rep β} {Q : β → Prop}
    (hf : ∀ s, I s → Meets I asks answers (f s) Q) : Meets I asks answers (read >>= f) Q :=
  meets_bind.mpr fun s hs => ⟨hs, hf s hs⟩

/-- A write that keeps the invariant. -/
theorem meets_write {update : S → S} (h : ∀ s, I s → I (update s)) :
    Meets I asks answers (write update : Prog S Req Rep Unit) fun _ => True :=
  fun s hs => ⟨h s hs, trivial⟩

/-- A request by the contract gets a reply by the contract. -/
theorem Meets.ask_next {message : Req} {f : Rep → Prog S Req Rep β} {Q : β → Prop}
    (hasks : asks message) (hf : ∀ r, answers message r → Meets I asks answers (f r) Q) :
    Meets I asks answers (ask message >>= f) Q :=
  meets_bind.mpr ⟨hasks, hf⟩

/-- A result that is thrown away. -/
theorem Meets.discard {p : Prog S Req Rep α} (hp : Meets I asks answers p fun _ => True) :
    Meets I asks answers (discard p) fun _ => True :=
  hp.bind (f := fun _ => pure PUnit.unit) fun _ _ => trivial

/-- A program that only reads keeps every invariant, whatever the replies. -/
theorem Queries.meets {asks' : Req → Prop} {p : Prog S Req Rep α} (hp : p.Queries asks')
    (hasks : ∀ m, asks' m → asks m) : Meets I asks answers p fun _ => True := by
  induction p with
  | done a => trivial
  | sect update next ih =>
    obtain ⟨rfl, hnext⟩ := hp
    intro s hs
    exact ⟨hs, ih s (hnext s)⟩
  | request message next ih => exact ⟨hasks message hp.1, fun r _ => ih r (hp.2 r)⟩

/-- A loop over a list, each turn of which satisfies the contract. -/
theorem Meets.forM {l : List α} {f : α → Prog S Req Rep PUnit}
    (hf : ∀ a ∈ l, Meets I asks answers (f a) fun _ => True) :
    Meets I asks answers (forM l f) fun _ => True := by
  induction l with
  | nil => trivial
  | cons a l ih =>
    rw [List.forM_cons]
    refine (hf a List.mem_cons_self).bind ?_
    intro _ _
    exact ih fun b hb => hf b (List.mem_cons_of_mem a hb)

end Meets

end Prog

namespace Pool

variable {S Req Rep Task : Type} {prog : Task → Prog S Req Rep Unit}

/-- The request that the program of that number waits with. -/
def pendingAt (pool : Pool S Req Rep) (i : ℕ) : Option Req := pool.progs[i]?.bind Prog.pending

/-- A request that is pending gets a reply by the contract. -/
def Answered (answers : Req → Rep → Prop) (pool : Pool S Req Rep) (event : PoolEvent Task Rep) :
    Prop :=
  ∀ i reply message, event = .advance i reply → pool.pendingAt i = some message →
    answers message reply

/-- Every program of the pool satisfies the contract, and the state has the invariant. -/
structure Meeting (I : S → Prop) (asks : Req → Prop) (answers : Req → Rep → Prop)
    (pool : Pool S Req Rep) : Prop where
  state : I pool.state
  progs : ∀ p ∈ pool.progs, p.Meets I asks answers fun _ => True

variable {I : S → Prop} {asks : Req → Prop} {answers : Req → Rep → Prop} {pool : Pool S Req Rep}

/-- The requests of the pool are by the contract. -/
theorem Meeting.of_pending (h : Meeting I asks answers pool) {i : ℕ} {message : Req}
    (hpending : pool.pendingAt i = some message) : asks message := by
  obtain ⟨p, hi, hp⟩ := Option.bind_eq_some_iff.mp hpending
  have hmeets := h.progs p (List.mem_of_getElem? hi)
  cases p with
  | done a => cases hp
  | sect update next => cases hp
  | request m next =>
    cases hp
    exact hmeets.1

/-- One event under the condition keeps the contract. -/
theorem Meeting.step (h : Meeting I asks answers pool) {event : PoolEvent Task Rep}
    (hanswered : Answered answers pool event)
    (hprog : ∀ task, event = .start task → (prog task).Meets I asks answers fun _ => True) :
    Meeting I asks answers (pool.step prog event) := by
  have hkeeps := step_keeps (K := I) h.state h.progs hprog fun i reply p heq hi => by
    refine (h.progs p (List.mem_of_getElem? hi)).step h.state fun message hpending => ?_
    refine hanswered i reply message heq ?_
    rw [pendingAt, hi]
    exact hpending
  exact ⟨hkeeps.1, hkeeps.2⟩

end Pool
