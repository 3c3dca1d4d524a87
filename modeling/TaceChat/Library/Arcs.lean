import Mathlib.Algebra.BigOperators.Group.Finset.Basic
import Mathlib.Algebra.BigOperators.Group.Finset.Piecewise
import Mathlib.Data.Fintype.Basic
import TaceChat.Library.Clockwise

/-!
# The arcs between the points of a circle

Points that follow each other clockwise cut the circle into arcs, one from each point to the next
and one from the last point back to the first. Every identifier lies on exactly one of them
(`existsUnique_arc`). For a finite set of points the lengths of the arcs add up to the whole circle
(`sum_arc_next`).
-/

set_option autoImplicit false

namespace IdCircle

variable {α : Type} [IdCircle α]

/-! ### Growing numbers -/

/-- A number above the first of some growing numbers is cut off by exactly one of them: the last one
below it. -/
theorem existsUnique_cut {n t : ℕ} {d : Fin n → ℕ} (hgrow : ∀ i j, i < j → d i < d j) (hn : 0 < n)
    (ht : d ⟨0, hn⟩ < t) :
    ∃! k : Fin n, d k < t ∧ ∀ hk : k + 1 < n, t ≤ d ⟨k + 1, hk⟩ := by
  have hmono : ∀ i j, i ≤ j → d i ≤ d j := by
    intro i j hij
    rcases Nat.eq_or_lt_of_le hij with heq | hlt
    · rw [Fin.ext heq]
    · exact Nat.le_of_lt (hgrow i j hlt)
  obtain ⟨k, hk, hmax⟩ := (Finset.univ.filter fun k => d k < t).exists_max_image Fin.val
    ⟨⟨0, hn⟩, Finset.mem_filter.mpr ⟨Finset.mem_univ _, ht⟩⟩
  rw [Finset.mem_filter] at hk
  have hlast : ∀ i, d i < t → i ≤ k := fun i hi =>
    hmax i (Finset.mem_filter.mpr ⟨Finset.mem_univ i, hi⟩)
  refine ⟨k, ⟨hk.2, ?_⟩, ?_⟩
  · intro hk'
    by_contra hlt
    have hle : k.val + 1 ≤ k.val := hlast ⟨k + 1, hk'⟩ (Nat.lt_of_not_le hlt)
    omega
  · rintro i ⟨hi, hi'⟩
    have hik := hlast i hi
    by_contra hne
    -- An earlier number below `t` is followed by one that is not above `k`, and so below `t` too.
    have hlt : i.val < k.val := Nat.lt_of_le_of_ne hik fun heq => hne (Fin.ext heq)
    have hle := hmono ⟨i + 1, by omega⟩ k hlt
    have hend := hi' (by omega)
    omega

/-! ### Distances -/

/-- A clockwise distance is a difference of positions modulo the size of the circle. -/
theorem cast_cw (a b : α) : (cw a b : ℤ) = ((pos b : ℤ) - pos a) % size α := by
  have ha := pos_lt a
  have hb := pos_lt b
  rw [cw_eq]
  split
  · rw [Int.emod_eq_of_lt (by omega) (by omega)]
    omega
  · rw [← Int.add_emod_right, Int.emod_eq_of_lt (by omega) (by omega)]
    omega

/-- A point lies on an arc exactly when it is nearer to its end than the start is. -/
theorem inArc_iff_cw_lt {x s e : α} : InArc x s e ↔ cw x e < cw s e := by
  refine ⟨InArc.cw_lt_cw, ?_⟩
  intro h
  have hlt := cw_lt s x
  unfold InArc
  rcases cw_triangle s x e with h1 | h1 <;> omega

/-- Distinct points are at distinct distances from a third one. -/
theorem cw_inj_left {a b c : α} (h : cw a c = cw b c) : a = b := by
  refine arc_inj_left (c := c) ?_
  rw [arc, arc, h]

section Origin

variable {f u v x : α}

/-- Membership in an arc that does not lead past `f`, by distances from `f`. -/
theorem inArc_iff_of_le (huv : cw f u ≤ cw f v) :
    InArc x u v ↔ cw f u < cw f x ∧ cw f x ≤ cw f v := by
  have hv := cw_lt f v
  have hx := cw_lt f x
  have huv' := cw_lt u v
  have hux' := cw_lt u x
  unfold InArc
  rcases cw_triangle f u v with h1 | h1 <;> rcases cw_triangle f u x with h2 | h2 <;> omega

/-- Membership in an arc that leads back to `f`. -/
theorem inArc_iff_back (hu : u ≠ f) : InArc x u f ↔ x = f ∨ cw f u < cw f x := by
  have hback := cw_add_cw hu
  have hpos := cw_pos hu
  have hpos' := cw_pos (Ne.symm hu)
  have hx := cw_lt f x
  have hux := cw_lt u x
  have hzero : x = f ↔ cw f x = 0 := by rw [cw_eq_zero, eq_comm]
  rw [hzero]
  unfold InArc
  rcases cw_triangle f u x with h | h <;> omega

end Origin

/-! ### Lists of points -/

/-- The points follow each other clockwise, seen from the first one. -/
def InClockwiseOrder (points : List α) : Prop :=
  ∀ f ∈ points.head?, points.Pairwise fun u v => cw f u ≤ cw f v

/-- The point after the one of that number. The first one follows the last. -/
def follower (points : List α) (k : Fin points.length) : α :=
  points.get ⟨(k + 1) % points.length, Nat.mod_lt _ (Nat.lt_of_le_of_lt (Nat.zero_le _) k.isLt)⟩

section Points

variable {points : List α} {x : α}

omit [IdCircle α] in

/-- A point is followed by the next one of the list. -/
theorem follower_of_lt {k : ℕ} (hk : k + 1 < points.length) :
    follower points ⟨k, Nat.lt_of_succ_lt hk⟩ = points.get ⟨k + 1, hk⟩ := by
  simp only [follower, Nat.mod_eq_of_lt hk]

omit [IdCircle α] in

/-- The last point is followed by the first one. -/
theorem follower_last {k : Fin points.length} (hk : k + 1 = points.length) :
    follower points k = points.get ⟨0, by omega⟩ := by
  simp only [follower, hk, Nat.mod_self]

/-- The distances of distinct points in clockwise order grow. -/
theorem InClockwiseOrder.cw_lt_cw (h : InClockwiseOrder points) (hnodup : points.Nodup)
    {i j : Fin points.length} (hij : i < j) :
    cw (points.get ⟨0, by omega⟩) (points.get i) <
      cw (points.get ⟨0, by omega⟩) (points.get j) := by
  have hhead : points.get ⟨0, by omega⟩ ∈ points.head? := by
    rw [List.head?_eq_getElem?]
    exact List.getElem?_eq_getElem _
  refine Nat.lt_of_le_of_ne (List.pairwise_iff_get.mp (h _ hhead) i j hij) ?_
  intro heq
  have hne : points.get i ≠ points.get j := fun hij' =>
    Nat.ne_of_lt hij (Fin.val_eq_of_eq (List.nodup_iff_injective_get.mp hnodup hij'))
  -- Distinct points are at distinct distances.
  have hpos := cw_pos hne
  have hlt := cw_lt (points.get i) (points.get j)
  rcases cw_triangle (points.get ⟨0, by omega⟩) (points.get i) (points.get j) with h1 | h1 <;> omega

/-- Membership in the arc after the point of that number, by distances from the first point. -/
theorem InClockwiseOrder.inArc_iff (h : InClockwiseOrder points) (hnodup : points.Nodup)
    (htwo : 2 ≤ points.length) (k : Fin points.length) :
    InArc x (points.get k) (follower points k) ↔
      (x = points.get ⟨0, by omega⟩ ∧ k + 1 = points.length) ∨
      (cw (points.get ⟨0, by omega⟩) (points.get k) < cw (points.get ⟨0, by omega⟩) x ∧
        ∀ hk : k + 1 < points.length,
          cw (points.get ⟨0, by omega⟩) x ≤
            cw (points.get ⟨0, by omega⟩) (points.get ⟨k + 1, hk⟩)) := by
  by_cases hk : k + 1 < points.length
  · have hlt := h.cw_lt_cw hnodup (i := k) (j := ⟨k + 1, hk⟩) (Nat.lt_succ_self k)
    rw [follower_of_lt hk, inArc_iff_of_le (Nat.le_of_lt hlt)]
    constructor
    · intro hx
      exact Or.inr ⟨hx.1, fun _ => hx.2⟩
    · rintro (⟨-, hlast⟩ | ⟨hfrom, hto⟩)
      · omega
      · exact ⟨hfrom, hto hk⟩
  · have hlast : k + 1 = points.length := by omega
    have hlt := h.cw_lt_cw hnodup (i := ⟨0, by omega⟩) (j := k) (show 0 < k.val by omega)
    have hne : points.get k ≠ points.get ⟨0, by omega⟩ := by
      intro heq
      rw [heq] at hlt
      exact Nat.lt_irrefl _ hlt
    rw [follower_last hlast, inArc_iff_back hne]
    constructor
    · rintro (hx | hx)
      · exact Or.inl ⟨hx, hlast⟩
      · exact Or.inr ⟨hx, fun hk' => absurd hk' hk⟩
    · rintro (⟨hx, -⟩ | ⟨hx, -⟩)
      · exact Or.inl hx
      · exact Or.inr hx

/-- Every identifier lies on exactly one of the arcs between two or more distinct points in
clockwise order, the arc from the last point to the first included. -/
theorem existsUnique_arc (htwo : 2 ≤ points.length) (hnodup : points.Nodup)
    (h : InClockwiseOrder points) (x : α) :
    ∃! k : Fin points.length, InArc x (points.get k) (follower points k) := by
  simp only [h.inArc_iff hnodup htwo]
  by_cases hx : x = points.get ⟨0, by omega⟩
  · -- The first point lies on the last arc only, because its distance is 0.
    refine ⟨⟨points.length - 1, by omega⟩, Or.inl ⟨hx, by dsimp only; omega⟩, ?_⟩
    rintro k (⟨-, hk⟩ | ⟨hk, -⟩)
    · exact Fin.ext (by dsimp only; omega)
    · rw [hx, cw_self] at hk
      omega
  · obtain ⟨k, hk, hunique⟩ := existsUnique_cut
      (d := fun i => cw (points.get ⟨0, by omega⟩) (points.get i))
      (fun i j hij => h.cw_lt_cw hnodup hij) (show 0 < points.length by omega)
      (show cw _ (points.get ⟨0, by omega⟩) < cw _ x by rw [cw_self]; exact cw_pos (Ne.symm hx))
    refine ⟨k, Or.inr hk, ?_⟩
    rintro i (⟨hi, -⟩ | hi)
    · exact absurd hi hx
    · exact hunique i hi

end Points

/-! ### Sets of points -/

section Sum

open Finset

variable {R : Finset α}

/-- The length of an arc by positions. It passes position 0 when it does not lead to a larger
position. -/
theorem arc_add_pos (a b : α) :
    arc a b + pos a = pos b + if pos b ≤ pos a then size α else 0 := by
  have ha := pos_lt a
  have hb := pos_lt b
  unfold arc
  rw [cw_eq]
  split <;> split <;> split <;> omega

/-- One member is followed by one that has no larger position: the last one before position 0. -/
theorem exists_filter_next_le (hR : R.Nonempty) :
    ∃ m, (R.filter fun a => pos (next R a) ≤ pos a) = {m} := by
  obtain ⟨m, hm, hmax⟩ := R.exists_max_image pos hR
  refine ⟨m, ?_⟩
  ext a
  rw [mem_filter, mem_singleton]
  constructor
  · rintro ⟨ha, hle⟩
    -- The arc to the next member passes position 0, so no member has a larger position than `a`.
    have hnext := arc_next_le hm a
    have h1 := arc_add_pos a (next R a)
    have h2 := arc_add_pos a m
    have hmlt := pos_lt m
    rw [if_pos hle] at h1
    have hge := hmax a ha
    refine pos_inj a m ?_
    by_contra hne
    rw [if_neg (by omega)] at h2
    omega
  · rintro rfl
    exact ⟨hm, hmax _ (next_mem hR a)⟩

/-- The arcs from each member to the next one make up the circle. -/
theorem sum_arc_next (hR : R.Nonempty) : ∑ a ∈ R, arc a (next R a) = size α := by
  obtain ⟨m, hm⟩ := exists_filter_next_le hR
  have hperm : ∑ a ∈ R, pos (next R a) = ∑ a ∈ R, pos a := by
    refine sum_nbij' (next R) (prev R) ?_ ?_ ?_ ?_ ?_
    · exact fun a _ => next_mem hR a
    · exact fun a _ => prev_mem hR a
    · exact fun a ha => prev_next ha
    · exact fun a ha => next_prev ha
    · exact fun a _ => rfl
  have hwrap : ∑ a ∈ R, (if pos (next R a) ≤ pos a then size α else 0) = size α := by
    rw [← sum_filter, hm, sum_singleton]
  have hsum : ∑ a ∈ R, arc a (next R a) + ∑ a ∈ R, pos a = ∑ a ∈ R, pos a + size α := by
    calc ∑ a ∈ R, arc a (next R a) + ∑ a ∈ R, pos a
        = ∑ a ∈ R, (pos (next R a) + if pos (next R a) ≤ pos a then size α else 0) := by
          rw [← sum_add_distrib]
          exact sum_congr rfl fun a _ => arc_add_pos a (next R a)
      _ = ∑ a ∈ R, pos a + size α := by rw [sum_add_distrib, hperm, hwrap]
  omega

end Sum

end IdCircle
