import Mathlib.Algebra.Order.BigOperators.Group.Finset
import TaceChat.Library.Arcs
import TaceChat.Library.Winding

/-!
# How far pointers on a circle are from their neighbours

`gapAfter R a b` counts the members of `R` that a pointer from `a` to `b` skips, and
`gapBefore R a b` those that a pointer from `b` back to `a` skips. A pointer that moves to a member
inside its arc skips fewer (`gapAfter_lt`, `gapBefore_lt`). These counts are ranks for protocols
that only ever shorten pointers.

`eq_next_of_injOn` says when no pointer skips anything: a successor function that never sends two
members to the same one, and along which all members lead to one that winds to itself, is `next R`.
The arcs of the cycle and the arcs to the next members have the same sum, one turn.
-/

set_option autoImplicit false

namespace IdCircle

variable {α : Type} [IdCircle α] {R : Finset α} {a b c f : α} {succ : α → α}

/-- The number of members strictly inside the arc from `a` to `b`. -/
def gapAfter (R : Finset α) (a b : α) : ℕ := (R.filter fun c => arc a c < arc a b).card

/-- The same number, by the distances to `b`. -/
def gapBefore (R : Finset α) (a b : α) : ℕ := (R.filter fun c => arc c b < arc a b).card

/-- A pointer that moves to a member inside its arc skips fewer members. -/
theorem gapAfter_lt (hb : b ∈ R) (h : arc a b < arc a c) : gapAfter R a b < gapAfter R a c := by
  refine Finset.card_lt_card (Finset.ssubset_iff_subset_ne.mpr ⟨fun x hx => ?_, fun heq => ?_⟩)
  · simp only [Finset.mem_filter] at hx ⊢
    exact ⟨hx.1, by omega⟩
  · -- The new end itself is no longer skipped.
    have hmem : b ∈ R.filter fun x => arc a x < arc a c := Finset.mem_filter.mpr ⟨hb, h⟩
    rw [← heq, Finset.mem_filter] at hmem
    omega

/-- So does a pointer back that moves to a member inside its arc. -/
theorem gapBefore_lt (hb : b ∈ R) (h : arc b a < arc c a) : gapBefore R b a < gapBefore R c a := by
  refine Finset.card_lt_card (Finset.ssubset_iff_subset_ne.mpr ⟨fun x hx => ?_, fun heq => ?_⟩)
  · simp only [Finset.mem_filter] at hx ⊢
    exact ⟨hx.1, by omega⟩
  · have hmem : b ∈ R.filter fun x => arc x a < arc c a := Finset.mem_filter.mpr ⟨hb, h⟩
    rw [← heq, Finset.mem_filter] at hmem
    omega

/-- A pointer does not skip its own end. -/
theorem gapBefore_lt_card (ha : a ∈ R) : gapBefore R a b < R.card := by
  refine Finset.card_lt_card (Finset.filter_ssubset.mpr ⟨a, ha, ?_⟩)
  omega

/-- A pointer does not skip its own start. -/
theorem gapAfter_lt_card (ha : a ∈ R) : gapAfter R a b < R.card := by
  refine Finset.card_lt_card (Finset.filter_ssubset.mpr ⟨a, ha, ?_⟩)
  have := arc_le a b
  rw [arc_self]
  omega

/-- Of two points other than `c`, one lies inside the arc from the other one to `c`. -/
theorem eq_of_not_inArc (ha : a ≠ c) (hb : b ≠ c) (h : ¬InArc a b c) (h' : ¬InArc b a c) :
    a = b := by
  by_contra hne
  have h1 := cw_add_cw hne
  have h2 := cw_add_cw ha
  have h3 := cw_add_cw hb
  have h4 := cw_pos hne
  have h5 := cw_pos (Ne.symm hne)
  unfold InArc at h h'
  rcases cw_triangle a b c with h6 | h6 <;> rcases cw_triangle b a c with h7 | h7 <;> omega

/-! ### When no pointer skips anything -/

/-- A point that comes back to itself does so after at least one step. -/
theorem Winds.iterate (h : Winds succ f f) : ∃ k, succ^[k + 1] f = f := by
  have hleads : Leads succ f (succ f) := by
    cases h with
    | last h =>
      rw [h]
      exact .here
    | step _ w => exact w.leads
  obtain ⟨k, hk⟩ := hleads.iterate
  exact ⟨k, hk⟩

omit [IdCircle α] in
/-- When no two members share a successor, every member that leads to a point of a cycle lies on
that cycle. -/
theorem Leads.exists_iterate {k : ℕ} (hclosed : ∀ i ∈ R, succ i ∈ R)
    (hinj : ∀ i ∈ R, ∀ j ∈ R, succ i = succ j → i = j) (hf : f ∈ R) (hk : succ^[k + 1] f = f)
    (h : Leads succ f a) (ha : a ∈ R) : ∃ m, succ^[m] f = a := by
  induction h with
  | here => exact ⟨0, rfl⟩
  | @step a w ih =>
    obtain ⟨m, hm⟩ := ih (hclosed a ha)
    have hmem : ∀ n, succ^[n] f ∈ R := by
      intro n
      induction n with
      | zero => exact hf
      | succ n hn =>
        rw [Function.iterate_succ_apply']
        exact hclosed _ hn
    -- One more round of the cycle makes room for a step back.
    have hround : succ (succ^[m + k] f) = succ a := by
      rw [← Function.iterate_succ_apply' succ, Nat.succ_eq_add_one, Nat.add_assoc,
        Function.iterate_add_apply, hk, hm]
    exact ⟨m + k, hinj _ (hmem _) a ha hround⟩

/-- The arcs along a list of points that follow `succ` are the arcs to the successors. -/
theorem sum_arc_chain [DecidableEq α] {goal : α} {l : List α}
    (hchain : (a :: l).IsChain fun u v => v = succ u)
    (hlast : succ ((a :: l).getLast (List.cons_ne_nil a l)) = goal) (hnodup : (a :: l).Nodup) :
    ∑ u ∈ (a :: l).toFinset, arc u (succ u) = turn goal (a :: l) := by
  induction l generalizing a with
  | nil => simpa [turn] using congrArg (arc a) hlast
  | cons b l ih =>
    obtain ⟨rfl, hchain⟩ := List.isChain_cons_cons.mp hchain
    obtain ⟨hnew, hnodup⟩ := List.nodup_cons.mp hnodup
    rw [List.getLast_cons (List.cons_ne_nil _ l)] at hlast
    rw [List.toFinset_cons, Finset.sum_insert (by simpa using hnew), ih hchain hlast hnodup]
    rfl

/-- A successor function that never sends two members to the same one, and along which every member
leads to one that winds to itself, goes to the next member everywhere. -/
theorem eq_next_of_injOn (hclosed : ∀ i ∈ R, succ i ∈ R)
    (hinj : ∀ i ∈ R, ∀ j ∈ R, succ i = succ j → i = j) (hf : f ∈ R)
    (hleads : ∀ i ∈ R, Leads succ f i) (hwinds : Winds succ f f) :
    ∀ i ∈ R, succ i = next R i := by
  classical
  obtain ⟨k, hk⟩ := hwinds.iterate
  obtain ⟨l, hchain, hlast, hclockwise, hturn⟩ := hwinds.cycle
  have hset : (f :: l).toFinset = R := by
    ext i
    rw [List.mem_toFinset]
    constructor
    · intro hi
      refine hchain.induction (fun j => j ∈ R) _ ?_ (fun _ => hf) i hi
      rintro i j rfl hi
      exact hclosed i hi
    · intro hi
      obtain ⟨m, rfl⟩ := (hleads i hi).exists_iterate hclosed hinj hf hk hi
      exact iterate_mem_of_isChain hchain hlast m
  have hnodup : (f :: l).Nodup := hclockwise.imp fun hlt heq => by
    rw [heq] at hlt
    omega
  -- Both kinds of arcs go round once, and no arc to a next member is longer.
  have hsum : ∑ i ∈ R, arc i (next R i) = ∑ i ∈ R, arc i (succ i) := by
    rw [sum_arc_next ⟨f, hf⟩, ← hturn, ← sum_arc_chain hchain hlast hnodup, hset]
  have hle : ∀ i ∈ R, arc i (next R i) ≤ arc i (succ i) := fun i hi =>
    arc_next_le (hclosed i hi) i
  intro i hi
  exact (arc_inj_right ((Finset.sum_eq_sum_iff_of_le hle).mp hsum i hi)).symm

end IdCircle
