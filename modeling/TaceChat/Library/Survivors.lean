import TaceChat.Library.Clockwise

/-!
# The members that are left

`L` is a part of the members `R` of a circle. A round through `R` meets the members at increasing
distances, so the first member of `L` that it meets is the next one of `L`.
-/

set_option autoImplicit false

namespace IdCircle

variable {α : Type} [IdCircle α] {R L : Finset α} {a : α}

/-- A round goes away from its start. -/
theorem arc_iterate_next_le (ha : a ∈ R) {j k : ℕ} (hjk : j ≤ k) (hk : k < R.card) :
    arc a ((next R)^[j + 1] a) ≤ arc a ((next R)^[k + 1] a) := by
  by_contra hlt
  -- The earlier member would have at least as many members before it.
  have hsub : upTo R a ((next R)^[k + 1] a) ⊆ upTo R a ((next R)^[j + 1] a) := by
    intro c hc
    rw [upTo, Finset.mem_filter] at hc ⊢
    exact ⟨hc.1, by omega⟩
  have hle := Finset.card_le_card hsub
  rw [card_upTo_iterate ha hk, card_upTo_iterate ha (by omega)] at hle
  have heq : j = k := by omega
  rw [heq] at hlt
  exact hlt (Nat.le_refl _)

/-- The first member of a part that a round meets. -/
theorem next_eq_iterate (hsub : L ⊆ R) (ha : a ∈ R) {m : ℕ} (hm : (next R)^[m + 1] a ∈ L)
    (hfirst : ∀ j < m, (next R)^[j + 1] a ∉ L) : next L a = (next R)^[m + 1] a := by
  refine next_eq hm fun c hc => ?_
  obtain ⟨k, hk, rfl⟩ := exists_iterate_next ha (hsub hc)
  exact arc_iterate_next_le ha (Nat.le_of_not_lt fun hkm => hfirst k hkm hc) hk

/-- A next member that is left is still the next one. -/
theorem next_eq_next (hsub : L ⊆ R) (ha : a ∈ R) (h : next R a ∈ L) : next L a = next R a :=
  next_eq_iterate hsub ha (m := 0) h fun _ hj => absurd hj (Nat.not_lt_zero _)

/-- A member before that is left is still the member before. -/
theorem prev_eq_prev (hsub : L ⊆ R) (ha : a ∈ L) (h : prev R a ∈ L) : prev L a = prev R a := by
  have hn : next R (prev R a) = a := next_prev (hsub ha)
  have hnext : next L (prev R a) = a := by
    rw [next_eq_next hsub (hsub h) (by rwa [hn]), hn]
  rw [← prev_next h, hnext]

end IdCircle
