import TaceChat.Library.Contracts

/-!
# Traces of programs

`Prog.Trace E p s reqs a s'` says that a program `p` may run from the state `s` to the state `s'`,
send the requests `reqs` on the way, and end with the result `a`. Requests may get any replies.
Before each section, and at the end, other programs may change the state by `E`. So with the
equality the program runs alone, and with the relation of all states to each other nothing is known
of the others.

`Trace.of_bind` takes the trace of a sequence apart. `Spec.trace` and `Meets.trace` are what the
specifications of a program say about its traces.

`Prog.Sent E p s reqs` says that `p` may have sent `reqs` at some point of a run that need not have
ended. Every such run can go on to its end (`Sent.completes`), so what holds of the requests of
whole runs holds of these too.
-/

set_option autoImplicit false

namespace Prog

variable {S Req Rep α β : Type}

/-- A whole run: the state it starts from, its requests, its result and the state it ends in. Before
each section the other programs change the state by `E`. -/
inductive Trace (E : S → S → Prop) : Prog S Req Rep α → S → List Req → α → S → Prop
  | done {a : α} {s s' : S} (h : E s s') : Trace E (.done a) s [] a s'
  | sect {update : S → S} {next : S → Prog S Req Rep α} {s s₁ s' : S} {reqs : List Req} {a : α}
      (h : E s s₁) (t : Trace E (next s₁) (update s₁) reqs a s') :
      Trace E (.sect update next) s reqs a s'
  | request {message : Req} {next : Rep → Prog S Req Rep α} {s s' : S} {reqs : List Req} {a : α}
      (r : Rep) (t : Trace E (next r) s reqs a s') :
      Trace E (.request message next) s (message :: reqs) a s'

variable {E : S → S → Prop} {s s' : S} {reqs : List Req}

/-- A program that has ended sends nothing more. -/
theorem Trace.of_done {a a' : α} (t : Trace E (.done a : Prog S Req Rep α) s reqs a' s') :
    reqs = [] ∧ a' = a ∧ E s s' := by
  cases t with
  | done h => exact ⟨rfl, rfl, h⟩

/-- A section finds a state that the other programs have left. -/
theorem Trace.of_sect {update : S → S} {next : S → Prog S Req Rep α} {a : α}
    (t : Trace E (.sect update next) s reqs a s') :
    ∃ s₁, E s s₁ ∧ Trace E (next s₁) (update s₁) reqs a s' := by
  cases t with
  | sect h t => exact ⟨_, h, t⟩

/-- A program that begins by reading. -/
theorem Trace.of_read_next {f : S → Prog S Req Rep β} {b : β}
    (t : Trace E (read >>= f) s reqs b s') : ∃ s₁, E s s₁ ∧ Trace E (f s₁) s₁ reqs b s' := by
  have t : Trace E (.sect id f) s reqs b s' := t
  exact t.of_sect

/-- A program that begins by writing. -/
theorem Trace.of_write_next {update : S → S} {f : Unit → Prog S Req Rep β} {b : β}
    (t : Trace E (write update >>= f) s reqs b s') :
    ∃ s₁, E s s₁ ∧ Trace E (f ()) (update s₁) reqs b s' := by
  have t : Trace E (.sect update fun _ => f ()) s reqs b s' := t
  exact t.of_sect

/-- A sequence runs its first part, and then the second one on its result. -/
theorem Trace.of_bind (hrefl : ∀ s, E s s) {p : Prog S Req Rep α} {f : α → Prog S Req Rep β} {b : β}
    (t : Trace E (p >>= f) s reqs b s') : ∃ reqs₁ reqs₂ a s₁,
      reqs = reqs₁ ++ reqs₂ ∧ Trace E p s reqs₁ a s₁ ∧ Trace E (f a) s₁ reqs₂ b s' := by
  induction p generalizing s reqs with
  | done a => exact ⟨[], reqs, a, s, rfl, .done (hrefl s), t⟩
  | sect update next ih =>
    have t : Trace E (.sect update fun s => next s >>= f) s reqs b s' := t
    obtain ⟨s₁, h, t⟩ := t.of_sect
    obtain ⟨reqs₁, reqs₂, a, s₂, hreqs, t₁, t₂⟩ := ih s₁ t
    exact ⟨reqs₁, reqs₂, a, s₂, hreqs, .sect h t₁, t₂⟩
  | request message next ih =>
    have t : Trace E (.request message fun r => next r >>= f) s reqs b s' := t
    cases t with
    | request r t =>
      obtain ⟨reqs₁, reqs₂, a, s₁, hreqs, t₁, t₂⟩ := ih r t
      exact ⟨message :: reqs₁, reqs₂, a, s₁, by rw [hreqs, List.cons_append], .request r t₁, t₂⟩

/-- What a specification says about a run, when the other programs keep it too. -/
theorem Spec.trace {I : S → Prop} {R : S → S → Prop} (htrans : ∀ s t u, R s t → R t u → R s u)
    (hE : ∀ s s', E s s' → I s → I s' ∧ R s s') {p : Prog S Req Rep α} {Q : α → Prop}
    (hp : Spec I R p Q) {a : α} (t : Trace E p s reqs a s') (hs : I s) : I s' ∧ R s s' ∧ Q a := by
  induction t with
  | done h =>
    obtain ⟨hI, hR⟩ := hE _ _ h hs
    exact ⟨hI, hR, hp⟩
  | sect h t ih =>
    obtain ⟨hI, hR⟩ := hE _ _ h hs
    obtain ⟨hI', hR', hnext⟩ := hp _ hI
    obtain ⟨hlast, hRlast, hQ⟩ := ih hnext hI'
    exact ⟨hlast, htrans _ _ _ hR (htrans _ _ _ hR' hRlast), hQ⟩
  | request r t ih => exact ih (hp r) hs

/-- What a contract that takes any reply says about the requests of a run. -/
theorem Meets.trace {asks : Req → Prop} {p : Prog S Req Rep α} {Q : α → Prop}
    (hp : Meets (fun _ => True) asks (fun _ _ => True) p Q) {a : α} (t : Trace E p s reqs a s') :
    (∀ m ∈ reqs, asks m) ∧ Q a := by
  induction t with
  | done h => exact ⟨fun _ hm => (List.not_mem_nil hm).elim, hp⟩
  | sect h t ih => exact ih (hp _ trivial).2
  | request r t ih =>
    obtain ⟨hrest, hQ⟩ := ih (hp.2 r trivial)
    refine ⟨?_, hQ⟩
    intro m hm
    rcases List.mem_cons.mp hm with rfl | hm
    · exact hp.1
    · exact hrest m hm

/-! ### Runs that have not ended -/

/-- The requests of a run up to some point. -/
inductive Sent (E : S → S → Prop) : Prog S Req Rep α → S → List Req → Prop
  | nothing {p : Prog S Req Rep α} {s : S} : Sent E p s []
  | sect {update : S → S} {next : S → Prog S Req Rep α} {s s₁ : S} {reqs : List Req}
      (h : E s s₁) (t : Sent E (next s₁) (update s₁) reqs) : Sent E (.sect update next) s reqs
  | request {message : Req} {next : Rep → Prog S Req Rep α} {s : S} {reqs : List Req} (r : Rep)
      (t : Sent E (next r) s reqs) : Sent E (.request message next) s (message :: reqs)

/-- Every program can run to its end. -/
theorem exists_trace [Inhabited Rep] (hrefl : ∀ s, E s s) (p : Prog S Req Rep α) :
    ∀ s, ∃ reqs a s', Trace E p s reqs a s' := by
  induction p with
  | done a => exact fun s => ⟨[], a, s, .done (hrefl s)⟩
  | sect update next ih =>
    intro s
    obtain ⟨reqs, a, s', t⟩ := ih s (update s)
    exact ⟨reqs, a, s', .sect (hrefl s) t⟩
  | request message next ih =>
    intro s
    obtain ⟨reqs, a, s', t⟩ := ih default s
    exact ⟨message :: reqs, a, s', .request default t⟩

/-- So can a program that has begun to run. -/
theorem Sent.completes [Inhabited Rep] (hrefl : ∀ s, E s s) {p : Prog S Req Rep α}
    (t : Sent E p s reqs) : ∃ rest a s', Trace E p s (reqs ++ rest) a s' := by
  induction t with
  | @nothing p s => exact exists_trace hrefl p s
  | sect h t ih =>
    obtain ⟨rest, a, s', t⟩ := ih
    exact ⟨rest, a, s', .sect h t⟩
  | request r t ih =>
    obtain ⟨rest, a, s', t⟩ := ih
    exact ⟨rest, a, s', .request r t⟩

end Prog
