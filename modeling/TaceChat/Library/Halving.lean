import Mathlib.Data.Nat.Log
import TaceChat.Library.NewMember

/-!
# Halving the way to a member

The owner of a point at distance `2 ^ i` is a long step: when the way to a member `p` is at least
`2 ^ i` and less than twice that, the owner lies on the way and leaves less than half of it
(`two_mul_cw_owner_lt`). The owner of a point beyond `p` does not lie on the way
(`not_inArc_owner`).

`exists_iterate_eq_of_halves` counts such steps: to come from a distance `d` to the goal takes at
most `log₂ d + 1` of them. Steps of which is only known that they lower a rank are counted by the
rank (`exists_iterate_of_descends`).
-/

set_option autoImplicit false

namespace IdCircle

variable {α : Type} [IdCircle α] {R : Finset α} {a p t : α}

/-- The owner of a point on the way to a member lies on that way, at the point or after it. -/
theorem inArc_owner (hp : p ∈ R) (ht : InArc t a p) :
    InArc (owner R t) a p ∧ cw a t ≤ cw a (owner R t) := by
  have hle := cw_owner_le hp t
  obtain ⟨hne, hsum⟩ := inArc_iff.mp ht
  have hpos := cw_pos hne
  have hlt := cw_lt a p
  unfold InArc
  rcases cw_triangle a t (owner R t) with h | h <;> omega

/-- The owner of a point beyond a member does not lie on the way to the member. -/
theorem not_inArc_owner (ha : a ∈ R) (ht : cw a p < cw a t) : ¬InArc (owner R t) a p := by
  intro h
  have hle := cw_owner_le ha t
  have hat : a ≠ t := by
    rintro rfl
    rw [cw_self] at ht
    omega
  have hround := cw_add_cw hat
  have hshort := h.2
  have hpos := h.1
  -- The owner would stand before the point, and the way to it from there leads past `a`.
  rcases cw_triangle a t (owner R t) with hsum | hsum <;> omega

/-- The owner of a point at distance `2 ^ i` leaves less than half of a way of that magnitude. -/
theorem two_mul_cw_owner_lt {i : ℕ} (hp : p ∈ R) (ht : cw a t = 2 ^ i) (hle : 2 ^ i ≤ cw a p)
    (hlt : cw a p < 2 ^ (i + 1)) : 2 * cw (owner R t) p < cw a p := by
  have hpos : 0 < 2 ^ i := Nat.two_pow_pos i
  have htarget : InArc t a p := ⟨by omega, by omega⟩
  obtain ⟨hin, hfar⟩ := inArc_owner hp htarget
  obtain ⟨-, hsum⟩ := inArc_iff.mp hin
  rw [Nat.pow_succ] at hlt
  omega

end IdCircle

/-- A function that more than halves a distance, away from the goal, comes to the goal after at most
`log₂ d + 1` steps from a distance `d`. -/
theorem exists_iterate_eq_of_halves {β : Type} {f : β → β} {dist : β → ℕ} {goal : β} {S : β → Prop}
    (hmem : ∀ n, S n → n ≠ goal → S (f n))
    (hhalf : ∀ n, S n → n ≠ goal → 2 * dist (f n) < dist n)
    (hgoal : ∀ n, S n → dist n = 0 → n = goal) :
    ∀ n, S n → ∃ h ≤ Nat.log 2 (dist n) + 1, f^[h] n = goal := by
  intro n
  induction hd : dist n using Nat.strong_induction_on generalizing n with
  | _ d ih =>
    intro hn
    by_cases heq : n = goal
    · exact ⟨0, Nat.zero_le _, heq⟩
    · have hlt := hhalf n hn heq
      rw [hd] at hlt
      obtain ⟨h, hle, hreach⟩ := ih (dist (f n)) (by omega) (f n) rfl (hmem n hn heq)
      by_cases hzero : dist (f n) = 0
      · -- The first step comes to the goal.
        exact ⟨1, by omega, hgoal _ (hmem n hn heq) hzero⟩
      · -- Half of the way has a smaller logarithm.
        refine ⟨h + 1, ?_, hreach⟩
        have hlog : Nat.log 2 (dist (f n) * 2) ≤ Nat.log 2 d := Nat.log_mono_right (by omega)
        rw [Nat.log_mul_base (by omega) hzero] at hlog
        omega
