import Mathlib.Data.List.Induction

/-!
# Programs of atomic sections

A concurrent program reads and writes a shared state `S` in atomic sections, and between them sends
requests and waits for replies. `Prog` is the syntax of such programs. It has two meanings.

`Prog.run` executes a program alone: its sections and its requests follow each other in one world.
`Pool` is the interleaving meaning: any number of programs on one state, of which any one takes its
next step at a time, and every request may get any reply.

`Prog.Spec I R p Q` is for proofs about pools. Every section of `p` that starts in a state with `I`
keeps `I` and relates the state before it to the state after it by `R`, and the result satisfies
`Q`. Other programs may run between any two sections, so what a section reads is used as an
arbitrary state with `I`. `Pool.run_spec` gives `I` and `R` for all states of all runs. A program
whose sections only read (`Prog.Reads`) has every specification with a reflexive `R`. `Prog.Queries`
also says what such a program asks.

`Pool.Along` restricts a run by a condition on each event and the pool that it meets, and
`Pool.Along.run_later` is the rule for such runs. One condition is that a first program runs alone
until it has ended (`Pool.FirstAlone`). Then that program may rely on more than the later ones.
-/

set_option autoImplicit false

/-- A program with sections on `S`, requests `Req` and replies `Rep`. -/
inductive Prog (S Req Rep α : Type) : Type
  /-- The program has ended. -/
  | done (result : α)
  /-- An atomic section. The program goes on with the state that the section found. -/
  | sect (update : S → S) (next : S → Prog S Req Rep α)
  /-- A request. The program goes on with the reply. -/
  | request (message : Req) (next : Rep → Prog S Req Rep α)

namespace Prog

variable {S Req Rep α β : Type}

/-- One program after another. -/
def bind : Prog S Req Rep α → (α → Prog S Req Rep β) → Prog S Req Rep β
  | .done a, f => f a
  | .sect update next, f => .sect update fun s => (next s).bind f
  | .request message next, f => .request message fun r => (next r).bind f

/-- Programs are sequenced by `bind`. -/
instance : Monad (Prog S Req Rep) where
  pure := .done
  bind := Prog.bind

/-- A section that writes, and gives the state that it found. -/
def atomic (update : S → S) : Prog S Req Rep S := .sect update .done

/-- A section that reads. -/
def read : Prog S Req Rep S := atomic id

/-- A section that writes. -/
def write (update : S → S) : Prog S Req Rep Unit := .sect update fun _ => .done ()

/-- A request and its reply. -/
def ask (message : Req) : Prog S Req Rep Rep := .request message .done

/-- The next step of a program in a state, and the reply that it gets if the step is a request. -/
def step (s : S) (reply : Rep) : Prog S Req Rep α → S × Prog S Req Rep α
  | .done a => (s, .done a)
  | .sect update next => (update s, next s)
  | .request _ next => (s, next reply)

/-- The program has ended. -/
def ended : Prog S Req Rep α → Bool
  | .done _ => true
  | _ => false

/-! ### One program alone -/

section Run

variable {σ : Type} (view : σ → S) (put : S → σ → σ) (answer : Req → StateT σ Option Rep)

/-- Runs a program in a world `σ` that contains the shared state. -/
def run : Prog S Req Rep α → StateT σ Option α
  | .done a => pure a
  | .sect update next => do
    let w ← get
    set (put (update (view w)) w)
    (next (view w)).run
  | .request message next => do
    let r ← answer message
    (next r).run

variable {view put answer}

/-- A sequence runs its parts one after the other. -/
@[simp] theorem run_bind (p : Prog S Req Rep α) (f : α → Prog S Req Rep β) :
    run view put answer (p >>= f) =
      run view put answer p >>= fun a => run view put answer (f a) := by
  induction p with
  | done a =>
    show run view put answer (f a) = _
    rw [run, pure_bind]
  | sect update next ih =>
    show run view put answer (.sect update fun s => next s >>= f) = _
    simp only [run, ih, bind_assoc]
  | request message next ih =>
    show run view put answer (.request message fun r => next r >>= f) = _
    simp only [run, ih, bind_assoc]

/-- A request gets the answer of its environment. -/
@[simp] theorem run_ask (message : Req) :
    run view put answer (ask message : Prog S Req Rep Rep) = answer message := by
  simp only [ask, run]
  exact bind_pure _

/-- Reading leaves a world alone in which writing back what was read changes nothing. -/
@[simp] theorem run_read (hput : ∀ w, put (view w) w = w) :
    run view put answer (read : Prog S Req Rep S) = (do return view (← get)) := by
  funext w
  show some (view w, put (view w) w) = some (view w, w)
  rw [hput]

end Run

/-! ### Specifications -/

section Spec

variable (I : S → Prop) (R : S → S → Prop)

/-- From states with `I`, every section keeps `I` and changes the state by `R`. `Q` holds of the
result. -/
def Spec : Prog S Req Rep α → (α → Prop) → Prop
  | .done a, Q => Q a
  | .sect update next, Q => ∀ s, I s → I (update s) ∧ R s (update s) ∧ (next s).Spec Q
  | .request _ next, Q => ∀ r, (next r).Spec Q

variable {I R}

/-- A sequence has a specification when its second part has it wherever the first one ends. -/
@[simp] theorem spec_bind {p : Prog S Req Rep α} {f : α → Prog S Req Rep β} {Q : β → Prop} :
    Spec I R (p >>= f) Q ↔ Spec I R p fun a => Spec I R (f a) Q := by
  induction p with
  | done a => exact Iff.rfl
  | sect update next ih =>
    show (∀ s, I s → I (update s) ∧ R s (update s) ∧ Spec I R (next s >>= f) Q) ↔ _
    simp only [ih]
    exact Iff.rfl
  | request message next ih =>
    show (∀ r, Spec I R (next r >>= f) Q) ↔ _
    simp only [ih]
    exact Iff.rfl

/-- One step of a program keeps the invariant, changes the state by `R`, and leaves a program with
the same specification. -/
theorem Spec.step (hrefl : ∀ s, R s s) {p : Prog S Req Rep α} {Q : α → Prop} (h : Spec I R p Q)
    {s : S} (hs : I s) (reply : Rep) :
    I (p.step s reply).1 ∧ R s (p.step s reply).1 ∧ Spec I R (p.step s reply).2 Q := by
  cases p with
  | done a => exact ⟨hs, hrefl s, h⟩
  | sect update next => exact h s hs
  | request message next => exact ⟨hs, hrefl s, h reply⟩

/-- Reading is allowed when `R` is reflexive. -/
theorem spec_read (hrefl : ∀ s, R s s) {Q : S → Prop} :
    Spec I R (read : Prog S Req Rep S) Q ↔ ∀ s, I s → Q s := by
  constructor
  · intro h s hs
    exact (h s hs).2.2
  · intro h s hs
    exact ⟨hs, hrefl s, h s hs⟩

/-- A weaker postcondition. -/
theorem Spec.mono {p : Prog S Req Rep α} {Q Q' : α → Prop} (h : Spec I R p Q)
    (hQ : ∀ a, Q a → Q' a) : Spec I R p Q' := by
  induction p with
  | done a => exact hQ a h
  | sect update next ih =>
    intro s hs
    obtain ⟨hI, hR, hnext⟩ := h s hs
    exact ⟨hI, hR, ih s hnext⟩
  | request message next ih =>
    intro r
    exact ih r (h r)

/-- A sequence whose second part does not depend on what is known of the first result. -/
theorem Spec.bind {p : Prog S Req Rep α} {f : α → Prog S Req Rep β} {P : α → Prop} {Q : β → Prop}
    (hp : Spec I R p P) (hf : ∀ a, P a → Spec I R (f a) Q) : Spec I R (p >>= f) Q :=
  spec_bind.mpr (hp.mono hf)

/-- A program, and then one that takes any result. -/
theorem Spec.next {p : Prog S Req Rep α} {f : α → Prog S Req Rep β} {Q : β → Prop}
    (hp : Spec I R p fun _ => True) (hf : ∀ a, Spec I R (f a) Q) : Spec I R (p >>= f) Q :=
  hp.bind fun a _ => hf a

/-- What is read has the invariant. -/
theorem Spec.read_next (hrefl : ∀ s, R s s) {f : S → Prog S Req Rep β} {Q : β → Prop}
    (hf : ∀ s, I s → Spec I R (f s) Q) : Spec I R (read >>= f) Q :=
  spec_bind.mpr ((spec_read hrefl).mpr hf)

/-- A section, and then a program that goes on with the state that the section found. -/
theorem Spec.atomic_next {update : S → S} {f : S → Prog S Req Rep β} {Q : β → Prop}
    (hf : ∀ s, I s → I (update s) ∧ R s (update s) ∧ Spec I R (f s) Q) :
    Spec I R (atomic update >>= f) Q :=
  spec_bind.mpr hf

/-- A request may get any reply. -/
theorem Spec.ask_next {message : Req} {f : Rep → Prog S Req Rep β} {Q : β → Prop}
    (hf : ∀ r, Spec I R (f r) Q) : Spec I R (ask message >>= f) Q :=
  spec_bind.mpr hf

/-- A request changes nothing here. -/
theorem spec_ask (message : Req) : Spec I R (ask message : Prog S Req Rep Rep) fun _ => True :=
  fun _ => trivial

/-- A result that is thrown away. -/
theorem Spec.discard {p : Prog S Req Rep α} (hp : Spec I R p fun _ => True) :
    Spec I R (discard p) fun _ => True :=
  hp.next (f := fun _ => pure PUnit.unit) fun _ => trivial

/-- A loop over a list, each turn of which satisfies the specification. -/
theorem Spec.forM {l : List α} {f : α → Prog S Req Rep PUnit}
    (hf : ∀ a ∈ l, Spec I R (f a) fun _ => True) : Spec I R (forM l f) fun _ => True := by
  induction l with
  | nil => trivial
  | cons a l ih =>
    rw [List.forM_cons]
    refine (hf a List.mem_cons_self).bind ?_
    intro _ _
    exact ih fun b hb => hf b (List.mem_cons_of_mem a hb)

end Spec

/-! ### Programs that only read -/

/-- Every section reads. -/
def Reads : Prog S Req Rep α → Prop
  | .done _ => True
  | .sect update next => update = id ∧ ∀ s, (next s).Reads
  | .request _ next => ∀ r, (next r).Reads

/-- A program that only reads keeps every invariant. -/
theorem Reads.spec {I : S → Prop} {R : S → S → Prop} (hrefl : ∀ s, R s s)
    {p : Prog S Req Rep α} (hp : p.Reads) : Spec I R p fun _ => True := by
  induction p with
  | done a => trivial
  | sect update next ih =>
    obtain ⟨rfl, hnext⟩ := hp
    intro s hs
    exact ⟨hs, hrefl s, ih s (hnext s)⟩
  | request message next ih =>
    intro r
    exact ih r (hp r)

/-- A program that only reads, and then another one. -/
theorem Reads.bind {p : Prog S Req Rep α} {f : α → Prog S Req Rep β} (hp : p.Reads)
    (hf : ∀ a, (f a).Reads) : (p >>= f).Reads := by
  induction p with
  | done a => exact hf a
  | sect update next ih => exact ⟨hp.1, fun s => ih s (hp.2 s)⟩
  | request message next ih =>
    intro r
    exact ih r (hp r)

/-- A read, and then more that writes nothing. -/
theorem reads_read_bind {f : S → Prog S Req Rep β} (hf : ∀ s, (f s).Reads) :
    (read >>= f).Reads := ⟨rfl, hf⟩

/-- A request, and then more that writes nothing. -/
theorem reads_ask_bind {message : Req} {f : Rep → Prog S Req Rep β} (hf : ∀ r, (f r).Reads) :
    (ask message >>= f).Reads := hf

/-- A loop over a list. -/
theorem Reads.forM {l : List α} {f : α → Prog S Req Rep PUnit} (hf : ∀ a ∈ l, (f a).Reads) :
    (forM l f).Reads := by
  induction l with
  | nil => trivial
  | cons a l ih =>
    rw [List.forM_cons]
    exact (hf a List.mem_cons_self).bind fun _ =>
      ih fun b hb => hf b (List.mem_cons_of_mem a hb)

/-! ### Queries -/

section Queries

/-- Every section reads, and every request satisfies `asks`. -/
def Queries (asks : Req → Prop) : Prog S Req Rep α → Prop
  | .done _ => True
  | .sect update next => update = id ∧ ∀ s, (next s).Queries asks
  | .request message next => asks message ∧ ∀ r, (next r).Queries asks

variable {asks : Req → Prop}

/-- A query writes nothing. -/
theorem Queries.reads {p : Prog S Req Rep α} (hp : p.Queries asks) : p.Reads := by
  induction p with
  | done a => trivial
  | sect update next ih => exact ⟨hp.1, fun s => ih s (hp.2 s)⟩
  | request message next ih => exact fun r => ih r (hp.2 r)

/-- One query after another. -/
theorem Queries.bind {p : Prog S Req Rep α} {f : α → Prog S Req Rep β} (hp : p.Queries asks)
    (hf : ∀ a, (f a).Queries asks) : (p >>= f).Queries asks := by
  induction p with
  | done a => exact hf a
  | sect update next ih => exact ⟨hp.1, fun s => ih s (hp.2 s)⟩
  | request message next ih => exact ⟨hp.1, fun r => ih r (hp.2 r)⟩

/-- A read, and then more of the query. -/
theorem queries_read_bind {f : S → Prog S Req Rep β} (hf : ∀ s, (f s).Queries asks) :
    (read >>= f).Queries asks := ⟨rfl, hf⟩

/-- A request that is allowed, and then more of the query. -/
theorem queries_ask_bind {message : Req} {f : Rep → Prog S Req Rep β} (hasks : asks message)
    (hf : ∀ r, (f r).Queries asks) : (ask message >>= f).Queries asks := ⟨hasks, hf⟩

end Queries

end Prog

/-! ### Pools -/

/-- What happens next in a pool. -/
inductive PoolEvent (Task Rep : Type) : Type
  /-- A task starts. -/
  | start (task : Task)
  /-- The program of that number takes its next step. A request gets the reply. -/
  | advance (i : ℕ) (reply : Rep)

/-- Programs that run concurrently on one state, in the order in which they have started. -/
structure Pool (S Req Rep : Type) where
  state : S
  progs : List (Prog S Req Rep Unit)

namespace Pool

variable {S Req Rep Task : Type}

/-- The program `p`, which is the `i`-th of the pool, takes a step. -/
def advance (pool : Pool S Req Rep) (i : ℕ) (reply : Rep) (p : Prog S Req Rep Unit) :
    Pool S Req Rep :=
  ⟨(p.step pool.state reply).1, pool.progs.set i (p.step pool.state reply).2⟩

variable (prog : Task → Prog S Req Rep Unit)

/-- The pool after an event. A number without a program is no event. -/
def step (pool : Pool S Req Rep) : PoolEvent Task Rep → Pool S Req Rep
  | .start task => ⟨pool.state, pool.progs ++ [prog task]⟩
  | .advance i reply =>
    match pool.progs[i]? with
    | some p => pool.advance i reply p
    | none => pool

/-- The pool after the events, in their order. -/
def run (start : Pool S Req Rep) (events : List (PoolEvent Task Rep)) : Pool S Req Rep :=
  events.foldl (step prog) start

/-- Every program has ended. -/
def Ended (pool : Pool S Req Rep) : Prop := ∀ p ∈ pool.progs, p.ended = true

/-- It can be computed whether a pool has ended. -/
instance (pool : Pool S Req Rep) : Decidable pool.Ended :=
  inferInstanceAs (Decidable (∀ p ∈ pool.progs, p.ended = true))

/-- The tasks that the events start, in their order. -/
def started (events : List (PoolEvent Task Rep)) : List Task :=
  events.flatMap fun
    | .start task => [task]
    | .advance _ _ => []

variable {prog} {I : S → Prop} {R : S → S → Prop}

/-- The step of a program of the pool. -/
theorem step_advance {pool : Pool S Req Rep} {i : ℕ} {p : Prog S Req Rep Unit}
    (hi : pool.progs[i]? = some p) (reply : Rep) :
    pool.step prog (.advance i reply) = pool.advance i reply p := by
  simp only [Pool.step, hi]

/-- A number without a program. -/
theorem step_advance_none {pool : Pool S Req Rep} {i : ℕ} (hi : pool.progs[i]? = none)
    (reply : Rep) :
    pool.step prog (.advance i reply) = pool := by
  simp only [Pool.step, hi]

/-- Every program of the pool satisfies the specification, and the state has the invariant. -/
structure Safe (I : S → Prop) (R : S → S → Prop) (pool : Pool S Req Rep) : Prop where
  state : I pool.state
  progs : ∀ p ∈ pool.progs, p.Spec I R fun _ => True

/-- What the steps of single programs keep, an event keeps: `K` of the state and `P` of every
program. The programs that take no step are as they were. -/
theorem step_keeps {P : Prog S Req Rep Unit → Prop} {K : S → Prop} {pool : Pool S Req Rep}
    {event : PoolEvent Task Rep} (hstate : K pool.state) (hprogs : ∀ p ∈ pool.progs, P p)
    (hstart : ∀ task, event = .start task → P (prog task))
    (hadvance : ∀ i reply p, event = .advance i reply → pool.progs[i]? = some p →
      K (p.step pool.state reply).1 ∧ P (p.step pool.state reply).2) :
    K (pool.step prog event).state ∧ ∀ p ∈ (pool.step prog event).progs, P p := by
  cases event with
  | start task =>
    refine ⟨hstate, ?_⟩
    intro p hp
    rcases List.mem_append.mp hp with hp | hp
    · exact hprogs p hp
    · rw [List.mem_singleton.mp hp]
      exact hstart task rfl
  | advance i reply =>
    cases hi : pool.progs[i]? with
    | none =>
      simp only [Pool.step, hi]
      exact ⟨hstate, hprogs⟩
    | some p =>
      obtain ⟨hK, hP⟩ := hadvance i reply p rfl hi
      simp only [Pool.step, hi]
      refine ⟨hK, ?_⟩
      intro p' hp'
      rcases List.mem_or_eq_of_mem_set hp' with hp' | rfl
      · exact hprogs p' hp'
      · exact hP

/-- One event keeps a pool safe and changes its state by `R`. -/
theorem Safe.step (hrefl : ∀ s, R s s) {pool : Pool S Req Rep} (h : Safe I R pool)
    {event : PoolEvent Task Rep}
    (hprog : ∀ task, event = .start task → (prog task).Spec I R fun _ => True) :
    Safe I R (pool.step prog event) ∧ R pool.state (pool.step prog event).state := by
  have hkeeps := step_keeps (K := fun s => I s ∧ R pool.state s) ⟨h.state, hrefl _⟩ h.progs hprog
    fun i reply p _ hi => by
      obtain ⟨hI, hR, hnext⟩ := (h.progs p (List.mem_of_getElem? hi)).step hrefl h.state reply
      exact ⟨⟨hI, hR⟩, hnext⟩
  exact ⟨⟨hkeeps.1.1, hkeeps.2⟩, hkeeps.1.2⟩

/-- A pool that is safe at the start is safe after every run, and the run changes its state by
`R`. -/
theorem Safe.run (hrefl : ∀ s, R s s) (htrans : ∀ s t u, R s t → R t u → R s u)
    (hprog : ∀ task, (prog task).Spec I R fun _ => True) {start : Pool S Req Rep}
    (h : Safe I R start) (events : List (PoolEvent Task Rep)) :
    Safe I R (start.run prog events) ∧ R start.state (start.run prog events).state := by
  induction events using List.reverseRecOn with
  | nil => exact ⟨h, hrefl _⟩
  | append_singleton events event ih =>
    have hlast : Safe I R ((start.run prog events).step prog event) ∧ _ :=
      ih.1.step hrefl fun task _ => hprog task
    have heq : start.run prog (events ++ [event]) = (start.run prog events).step prog event :=
      List.foldl_append
    rw [heq]
    exact ⟨hlast.1, htrans _ _ _ ih.2 hlast.2⟩

/-- The run after a longer list of events starts where the shorter run has ended. -/
theorem run_append (start : Pool S Req Rep) (events later : List (PoolEvent Task Rep)) :
    start.run prog (events ++ later) = (start.run prog events).run prog later :=
  List.foldl_append

/-! ### Runs under a condition -/

variable (prog) in
/-- Every event of the run satisfies the condition in the pool that it meets. -/
def Along (ok : Pool S Req Rep → PoolEvent Task Rep → Prop) :
    Pool S Req Rep → List (PoolEvent Task Rep) → Prop
  | _, [] => True
  | pool, event :: events => ok pool event ∧ Along ok (pool.step prog event) events

variable {ok : Pool S Req Rep → PoolEvent Task Rep → Prop}

/-- A condition along a run is one along both of its parts. -/
theorem along_append {start : Pool S Req Rep} {events later : List (PoolEvent Task Rep)} :
    Along prog ok start (events ++ later) ↔
      Along prog ok start events ∧ Along prog ok (start.run prog events) later := by
  induction events generalizing start with
  | nil => exact ⟨fun h => ⟨trivial, h⟩, fun h => h.2⟩
  | cons event events ih =>
    show ok start event ∧ Along prog ok (start.step prog event) (events ++ later) ↔
      (ok start event ∧ Along prog ok (start.step prog event) events) ∧ _
    rw [ih, and_assoc]
    exact Iff.rfl

/-- What every event under the condition keeps, the run keeps, and its states are related by what
relates the states around each event. -/
theorem Along.run {J : Pool S Req Rep → Prop} (hrefl : ∀ s, R s s)
    (htrans : ∀ s t u, R s t → R t u → R s u)
    (hstep : ∀ pool event, J pool → ok pool event →
      J (pool.step prog event) ∧ R pool.state (pool.step prog event).state) :
    ∀ {events : List (PoolEvent Task Rep)} {start : Pool S Req Rep}, J start →
      Along prog ok start events →
        J (start.run prog events) ∧ R start.state (start.run prog events).state := by
  intro events
  induction events with
  | nil =>
    intro start hJ _
    exact ⟨hJ, hrefl _⟩
  | cons event events ih =>
    intro start hJ hok
    obtain ⟨hJ', hR⟩ := hstep start event hJ hok.1
    obtain ⟨hlast, hR'⟩ := ih hJ' hok.2
    exact ⟨hlast, htrans _ _ _ hR hR'⟩

/-- Two states of a run are related, the earlier one to the later one. -/
theorem Along.run_later {J : Pool S Req Rep → Prop} (hrefl : ∀ s, R s s)
    (htrans : ∀ s t u, R s t → R t u → R s u)
    (hstep : ∀ pool event, J pool → ok pool event →
      J (pool.step prog event) ∧ R pool.state (pool.step prog event).state)
    {events later : List (PoolEvent Task Rep)} {start : Pool S Req Rep} (hJ : J start)
    (hok : Along prog ok start (events ++ later)) :
    J (start.run prog events) ∧ J (start.run prog (events ++ later)) ∧
      R (start.run prog events).state (start.run prog (events ++ later)).state := by
  obtain ⟨hevents, hlater⟩ := along_append.mp hok
  have hfirst := (Along.run hrefl htrans hstep hJ hevents).1
  rw [run_append]
  exact ⟨hfirst, Along.run hrefl htrans hstep hfirst hlater⟩

/-- Until the first program has ended, the event is a step of that program. -/
def FirstAlone (pool : Pool S Req Rep) (event : PoolEvent Task Rep) : Prop :=
  pool.progs[0]? = some (.done ()) ∨ ∃ reply, event = .advance 0 reply

/-- A safe pool, or one whose first program has not ended and is alone. That program may rely on
`J`, which is stronger than `I`. -/
def Starting (I J : S → Prop) (R : S → S → Prop) (pool : Pool S Req Rep) : Prop :=
  Safe I R pool ∨ ∃ p, pool.progs = [p] ∧ J pool.state ∧ p.Spec J R fun _ => True

/-- The state is fine, whoever runs. -/
theorem Starting.state {J : S → Prop} (hJI : ∀ s, J s → I s) {pool : Pool S Req Rep}
    (h : Starting I J R pool) : I pool.state := by
  rcases h with h | ⟨_, _, hJ, _⟩
  · exact h.state
  · exact hJI _ hJ

/-- One step keeps the pool starting, or makes it safe when the first program ends. -/
theorem Starting.step {J : S → Prop} (hrefl : ∀ s, R s s) (hJI : ∀ s, J s → I s)
    {pool : Pool S Req Rep} (h : Starting I J R pool) {event : PoolEvent Task Rep}
    (hfirst : FirstAlone pool event)
    (hprog : ∀ task, event = .start task → (prog task).Spec I R fun _ => True) :
    Starting I J R (pool.step prog event) ∧ R pool.state (pool.step prog event).state := by
  have hsafe (h : Safe I R pool) : Starting I J R (pool.step prog event) ∧
      R pool.state (pool.step prog event).state :=
    (h.step hrefl hprog).imp_left Or.inl
  rcases h with h | ⟨p, hprogs, hJ, hp⟩
  · exact hsafe h
  · rcases hfirst with hdone | ⟨reply, rfl⟩
    · -- The first program has ended, so the pool is safe by now.
      rw [hprogs, List.getElem?_cons_zero] at hdone
      refine hsafe ⟨hJI _ hJ, ?_⟩
      intro p' hp'
      rw [hprogs, List.mem_singleton] at hp'
      rw [hp', Option.some.inj hdone]
      trivial
    · obtain ⟨hJ', hR, hnext⟩ := hp.step hrefl hJ reply
      simp only [Pool.step, hprogs]
      exact ⟨Or.inr ⟨_, congrArg (List.set · 0 _) hprogs, hJ', hnext⟩, hR⟩

/-! ### Runs from the start -/

/-- The states of a run have the invariant, and each is related to all later ones by `R`. -/
theorem run_spec (hrefl : ∀ s, R s s) (htrans : ∀ s t u, R s t → R t u → R s u)
    (hprog : ∀ task, (prog task).Spec I R fun _ => True) {s : S} (hs : I s)
    (events later : List (PoolEvent Task Rep)) :
    I (run prog ⟨s, []⟩ events).state ∧
      R (run prog ⟨s, []⟩ events).state (run prog ⟨s, []⟩ (events ++ later)).state := by
  have hstart : Safe I R (⟨s, []⟩ : Pool S Req Rep) := ⟨hs, by intro p hp; cases hp⟩
  have hfirst := (hstart.run hrefl htrans hprog events).1
  rw [run_append]
  exact ⟨hfirst.state, (hfirst.run hrefl htrans hprog later).2⟩

end Pool
