import Mathlib.Data.List.Basic

/-!
# `Returns`: total correctness for stateful programs that may run forever

A program is a `StateT σ Option α`. It takes a state and gives back a result with the new
state, or `none` when it never returns. `Returns x s Q` says that `x`, started in `s`,
returns, and that `Q` holds of its result and its final state.

`Returns` is closed under the monad operations by equivalences, so `simp` runs a program
symbolically. The rules after them are for reasoning about a call by its specification:
`Returns.mono` weakens a postcondition, `Returns.bind` sequences two specifications, and
`Returns.forM` is the invariant rule for a loop over a list.

`Extends x y` compares two programs: wherever `x` returns, `y` returns the same. The monad
operations preserve it, so it lifts from the calls of a program to the program.
-/

set_option autoImplicit false

variable {σ α β : Type}

/-- `x`, started in `s`, returns, and `Q` holds of its result and its final state. -/
def Returns (x : StateT σ Option α) (s : σ) (Q : α → σ → Prop) : Prop :=
  ∃ a s', x.run s = some (a, s') ∧ Q a s'

/-- `pure a` returns `a` and leaves the state alone. -/
@[simp] theorem returns_pure {a : α} {s : σ} {Q : α → σ → Prop} :
    Returns (pure a) s Q ↔ Q a s := by
  constructor
  · rintro ⟨a', s', hrun, hQ⟩
    cases hrun
    exact hQ
  · exact fun hQ => ⟨a, s, rfl, hQ⟩

/-- A sequence returns when its first part returns a result from which the second part
returns. -/
@[simp] theorem returns_bind {x : StateT σ Option α} {f : α → StateT σ Option β} {s : σ}
    {Q : β → σ → Prop} :
    Returns (x >>= f) s Q ↔ Returns x s fun a s' => Returns (f a) s' Q := by
  constructor
  · rintro ⟨b, t, hrun, hQ⟩
    rw [StateT.run_bind] at hrun
    obtain ⟨⟨a, s'⟩, hx, hf⟩ := Option.bind_eq_some_iff.mp hrun
    exact ⟨a, s', hx, b, t, hf, hQ⟩
  · rintro ⟨a, s', hx, b, t, hf, hQ⟩
    refine ⟨b, t, ?_, hQ⟩
    rw [StateT.run_bind]
    exact Option.bind_eq_some_iff.mpr ⟨(a, s'), hx, hf⟩

/-- Mapping a pure function over the result. -/
@[simp] theorem returns_map {x : StateT σ Option α} {f : α → β} {s : σ} {Q : β → σ → Prop} :
    Returns (f <$> x) s Q ↔ Returns x s fun a s' => Q (f a) s' := by
  rw [← bind_pure_comp, returns_bind]
  simp only [returns_pure]

/-- Dropping the result. -/
@[simp] theorem returns_discard {x : StateT σ Option α} {s : σ} {Q : PUnit → σ → Prop} :
    Returns (discard x) s Q ↔ Returns x s fun _ s' => Q ⟨⟩ s' :=
  returns_map (x := x) (f := fun _ => PUnit.unit)

/-- A conditional returns when the branch it takes returns. The right side does not mention how
the condition is decided, so the condition can be rewritten. -/
@[simp] theorem returns_ite {c : Prop} [Decidable c] {x y : StateT σ Option α} {s : σ}
    {Q : α → σ → Prop} :
    Returns (if c then x else y) s Q ↔ (c → Returns x s Q) ∧ (¬c → Returns y s Q) := by
  by_cases h : c <;> simp [h]

/-- `get` returns the state. -/
@[simp] theorem returns_get {s : σ} {Q : σ → σ → Prop} :
    Returns (get : StateT σ Option σ) s Q ↔ Q s s := by
  constructor
  · rintro ⟨a, s', hrun, hQ⟩
    cases hrun
    exact hQ
  · exact fun hQ => ⟨s, s, rfl, hQ⟩

/-- `set` replaces the state. -/
@[simp] theorem returns_set {s t : σ} {Q : PUnit → σ → Prop} :
    Returns (set t : StateT σ Option PUnit) s Q ↔ Q ⟨⟩ t := by
  constructor
  · rintro ⟨a, s', hrun, hQ⟩
    cases hrun
    exact hQ
  · exact fun hQ => ⟨⟨⟩, t, rfl, hQ⟩

/-- `modify` applies its function to the state. -/
@[simp] theorem returns_modify {f : σ → σ} {s : σ} {Q : PUnit → σ → Prop} :
    Returns (modify f : StateT σ Option PUnit) s Q ↔ Q ⟨⟩ (f s) := by
  constructor
  · rintro ⟨a, s', hrun, hQ⟩
    cases hrun
    exact hQ
  · exact fun hQ => ⟨⟨⟩, f s, rfl, hQ⟩

/-- A weaker postcondition. -/
theorem Returns.mono {x : StateT σ Option α} {s : σ} {Q R : α → σ → Prop}
    (h : Returns x s Q) (hQR : ∀ a s', Q a s' → R a s') : Returns x s R := by
  obtain ⟨a, s', hrun, hQ⟩ := h
  exact ⟨a, s', hrun, hQR a s' hQ⟩

/-- A program is deterministic, so two postconditions hold together. -/
theorem Returns.and {x : StateT σ Option α} {s : σ} {Q R : α → σ → Prop}
    (hQ : Returns x s Q) (hR : Returns x s R) : Returns x s fun a s' => Q a s' ∧ R a s' := by
  obtain ⟨a, s', hrun, hQ⟩ := hQ
  obtain ⟨b, t, hrun', hR⟩ := hR
  rw [hrun] at hrun'
  cases hrun'
  exact ⟨a, s', hrun, hQ, hR⟩

/-- Sequencing by specification: `P` is what the first part leaves for the second. -/
theorem Returns.bind {x : StateT σ Option α} {f : α → StateT σ Option β} {s : σ}
    {P : α → σ → Prop} {Q : β → σ → Prop} (hx : Returns x s P)
    (hf : ∀ a s', P a s' → Returns (f a) s' Q) : Returns (x >>= f) s Q :=
  returns_bind.mpr (hx.mono hf)

/-- The invariant rule for a loop over a list. -/
theorem Returns.forM {l : List α} {f : α → StateT σ Option PUnit} {I : σ → Prop} {s : σ}
    (hstep : ∀ a ∈ l, ∀ s, I s → Returns (f a) s fun _ s' => I s') (hI : I s) :
    Returns (forM l f) s fun _ s' => I s' := by
  induction l generalizing s with
  | nil => exact returns_pure.mpr hI
  | cons a l ih =>
    rw [List.forM_cons]
    refine (hstep a List.mem_cons_self s hI).bind fun _ s' hI' => ?_
    exact ih (fun b hb => hstep b (List.mem_cons_of_mem _ hb)) hI'

/-! ### Programs that return more often -/

/-- Wherever `x` returns, `y` returns the same. -/
def Extends (x y : StateT σ Option α) : Prop := ∀ s r, x.run s = some r → y.run s = some r

/-- A computation extends itself. -/
theorem Extends.refl (x : StateT σ Option α) : Extends x x := fun _ _ h => h

/-- What holds of the results still holds. -/
theorem Extends.returns {x y : StateT σ Option α} (h : Extends x y) {s : σ} {Q : α → σ → Prop}
    (hx : Returns x s Q) : Returns y s Q := by
  obtain ⟨a, s', hrun, hQ⟩ := hx
  exact ⟨a, s', h s _ hrun, hQ⟩

/-- Both parts of a sequence are extended. -/
theorem Extends.bind {x y : StateT σ Option α} {f g : α → StateT σ Option β} (h : Extends x y)
    (hfg : ∀ a, Extends (f a) (g a)) : Extends (x >>= f) (y >>= g) := by
  intro s r hrun
  rw [StateT.run_bind] at hrun ⊢
  obtain ⟨⟨a, s'⟩, hx, hf⟩ := Option.bind_eq_some_iff.mp hrun
  exact Option.bind_eq_some_iff.mpr ⟨(a, s'), h s _ hx, hfg a s' r hf⟩

/-- A result that is thrown away. -/
theorem Extends.discard {x y : StateT σ Option α} (h : Extends x y) :
    Extends (discard x) (discard y) := by
  intro s r hrun
  have hx : Returns (Functor.discard x) s fun a s' => (a, s') = r := ⟨r.1, r.2, hrun, rfl⟩
  obtain ⟨a, s', hy, heq⟩ := returns_discard.mpr (h.returns (returns_discard.mp hx))
  rw [← heq]
  exact hy

/-- Both branches of a condition are extended. -/
theorem Extends.ite {c : Prop} [Decidable c] {x y x' y' : StateT σ Option α} (h : Extends x y)
    (h' : Extends x' y') : Extends (if c then x else x') (if c then y else y') := by
  split
  · exact h
  · exact h'

/-- The body of a loop is extended. -/
theorem Extends.forM {l : List α} {f g : α → StateT σ Option PUnit}
    (h : ∀ a, Extends (f a) (g a)) : Extends (forM l f) (forM l g) := by
  induction l with
  | nil => exact .refl _
  | cons a l ih =>
    rw [List.forM_cons, List.forM_cons]
    exact (h a).bind fun _ => ih
