import Mathlib.Logic.Function.Iterate

/-!
# Systems that settle

`InARow round k s r` says that `k` rounds in a row lead from the state `s` to the state `r`. A rank
that no round raises can fall only finitely often. When a window of `w` rounds that leaves the rank
alone ends in a good state, and good states stay good, `w * (rank s + 1)` rounds are enough to come
to a good state (`InARow.settles`).
-/

set_option autoImplicit false

variable {σ : Type}

/-- `k` rounds in a row. -/
inductive InARow (round : σ → σ → Prop) : ℕ → σ → σ → Prop
  | none (s : σ) : InARow round 0 s s
  | more {k : ℕ} {s t r : σ} (before : InARow round k s t) (last : round t r) :
      InARow round (k + 1) s r

namespace InARow

variable {round : σ → σ → Prop} {Inv Good : σ → Prop} {rank : σ → ℕ} {k m n w : ℕ} {s t r : σ}

/-- The rounds of a row, cut in two. -/
theorem split (h : InARow round (m + n) s r) :
    ∃ t, InARow round m s t ∧ InARow round n t r := by
  induction n generalizing r with
  | zero => exact ⟨r, h, .none r⟩
  | succ n ih =>
    cases h with
    | more before last =>
      obtain ⟨t, hm, hn⟩ := ih before
      exact ⟨t, hm, hn.more last⟩

/-- Two rounds in a row. -/
theorem two (h : InARow round 2 s r) : ∃ t, round s t ∧ round t r := by
  cases h with
  | more before last =>
    cases before with
    | more first one =>
      cases first
      exact ⟨_, one, last⟩

/-- What every round keeps. -/
theorem keeps (hkeep : ∀ s r, Inv s → round s r → Inv r) (h : InARow round k s r) (hs : Inv s) :
    Inv r := by
  induction h with
  | none => exact hs
  | more _ last ih => exact hkeep _ _ (ih hs) last

section Falling

variable (hinv : ∀ s r, Inv s → round s r → Inv r)
  (hrank : ∀ s r, Inv s → round s r → rank r ≤ rank s)

include hinv hrank

/-- A rank that no round raises is raised by no row of rounds. -/
theorem rank_le (h : InARow round k s r) (hs : Inv s) : rank r ≤ rank s := by
  induction h with
  | none => exact Nat.le_refl _
  | more before last ih => exact Nat.le_trans (hrank _ _ (before.keeps hinv hs) last) (ih hs)

variable (hcalm : ∀ s r, Inv s → InARow round w s r → rank r = rank s → Good r)
  (hgood : ∀ s r, Inv s → Good s → round s r → Good r)

include hcalm hgood

omit hrank hcalm in
/-- Good states stay good. -/
theorem stays_good (h : InARow round k s r) (hs : Inv s) (hgs : Good s) : Good r := by
  have hkeep : ∀ s r, Inv s ∧ Good s → round s r → Inv r ∧ Good r := fun s r h hround =>
    ⟨hinv s r h.1 hround, hgood s r h.1 h.2 hround⟩
  exact (h.keeps hkeep ⟨hs, hgs⟩).2

/-- After `j` windows a good state has been reached, or the rank has fallen `j` times. -/
theorem good_or_falls (hs : Inv s) (j : ℕ) (h : InARow round (w * j) s r) :
    Good r ∨ rank r + j ≤ rank s := by
  induction j generalizing r with
  | zero => exact Or.inr (h.rank_le hinv hrank hs)
  | succ j ih =>
    obtain ⟨t, hbefore, hwindow⟩ := h.split
    have ht : Inv t := hbefore.keeps hinv hs
    have hle := hwindow.rank_le hinv hrank ht
    rcases ih hbefore with hgoodt | hfallen
    · exact Or.inl (hwindow.stays_good hinv hgood ht hgoodt)
    · by_cases heq : rank r = rank t
      · exact Or.inl (hcalm t r ht hwindow heq)
      · exact Or.inr (by omega)

/-- Enough rounds lead to a good state. -/
theorem settles (hs : Inv s) (h : InARow round k s r) (hk : w * (rank s + 1) ≤ k) : Good r := by
  obtain ⟨n, rfl⟩ := Nat.exists_eq_add_of_le hk
  obtain ⟨t, hbefore, hafter⟩ := h.split
  rcases good_or_falls hinv hrank hcalm hgood hs _ hbefore with hgoodt | hfallen
  · exact hafter.stays_good hinv hgood (hbefore.keeps hinv hs) hgoodt
  · omega

end Falling

/-- Rounds in a row exist from every state of an invariant from which one round does. -/
theorem exists_of (hnext : ∀ s, Inv s → ∃ r, Inv r ∧ round s r) (hs : Inv s) (k : ℕ) :
    ∃ r, Inv r ∧ InARow round k s r := by
  induction k with
  | zero => exact ⟨s, hs, .none s⟩
  | succ k ih =>
    obtain ⟨t, ht, hrow⟩ := ih
    obtain ⟨r, hr, hround⟩ := hnext t ht
    exact ⟨r, hr, hrow.more hround⟩

end InARow
