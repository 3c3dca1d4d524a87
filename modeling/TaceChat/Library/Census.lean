import Mathlib.Data.List.Basic

/-!
# Counting the members of a list by where they are

A system of many tasks keeps a list of where each task is. When one task moves, one entry of the
list is set. `exists_split` gives the entries before and after it, and `countP_set_add` what the
move does to the number of the tasks at some places. The other lemmas say when there is at most one
such task.
-/

set_option autoImplicit false

variable {α : Type} {l : List α} {i : ℕ} {a : α}

/-- The entries before and after one of them, also when it is set. -/
theorem exists_split (h : l[i]? = some a) : ∃ before after,
    l = before ++ a :: after ∧ ∀ b, l.set i b = before ++ b :: after := by
  obtain ⟨hi, hget⟩ := List.getElem?_eq_some_iff.mp h
  refine ⟨l.take i, l.drop (i + 1), ?_, ?_⟩
  · rw [← hget, List.getElem_cons_drop, List.take_append_drop]
  · intro b
    rw [List.set_eq_take_append_cons_drop, if_pos hi]

/-- The count changes by what the old and the new entry contribute. -/
theorem countP_set_add (h : l[i]? = some a) (p : α → Bool) (b : α) :
    (l.set i b).countP p + (if p a = true then 1 else 0) =
      l.countP p + if p b = true then 1 else 0 := by
  obtain ⟨before, after, hl, hset⟩ := exists_split h
  rw [hset b, hl, List.countP_append, List.countP_append, List.countP_cons, List.countP_cons]
  omega

/-- Related entries, where no two that satisfy `p` are related. -/
theorem countP_le_one {p : α → Bool} {R : α → α → Prop} (hl : l.Pairwise R)
    (hp : ∀ a ∈ l, ∀ b ∈ l, p a = true → p b = true → ¬R a b) : l.countP p ≤ 1 := by
  induction l with
  | nil => exact Nat.zero_le 1
  | cons a l ih =>
    obtain ⟨ha, hl⟩ := List.pairwise_cons.mp hl
    rw [List.countP_cons]
    by_cases hpa : p a = true
    · have hnone : l.countP p = 0 := by
        refine List.countP_eq_zero.mpr fun b hb hpb => ?_
        exact hp a List.mem_cons_self b (List.mem_cons_of_mem a hb) hpa hpb (ha b hb)
      rw [if_pos hpa]
      omega
    · rw [if_neg hpa]
      exact ih hl fun b hb c hc => hp b (List.mem_cons_of_mem a hb) c (List.mem_cons_of_mem a hc)

/-- When one entry satisfies `p`, all that do are equal. -/
theorem eq_of_countP_eq_one {p : α → Bool} {b : α} (h : l.countP p = 1) (ha : a ∈ l) (hb : b ∈ l)
    (hpa : p a = true) (hpb : p b = true) : a = b := by
  rw [List.countP_eq_length_filter, List.length_eq_one_iff] at h
  obtain ⟨c, hc⟩ := h
  have hmem : ∀ x ∈ l, p x = true → x = c := by
    intro x hx hpx
    have hfilter := List.mem_filter.mpr ⟨hx, hpx⟩
    rw [hc] at hfilter
    exact List.mem_singleton.mp hfilter
  rw [hmem a ha hpa, hmem b hb hpb]
