import TaceChat.Library.Clockwise
import Mathlib.Logic.Function.Iterate
import Mathlib.Data.List.Chain

/-!
# Successor walks that wind clockwise

`succ : α → α` is a successor function on the points of a circle. `Winds succ a b` says that
the walk from `a` along `succ` reaches `b` without leaving the arc from `a` to `b`: each step
on the way goes clockwise and stops short of `b`. With `a = b` the arc is the whole circle, so
`Winds succ a a` says that `a` lies on a cycle that goes round exactly once.

Three ways to change `succ` keep these walks. `Winds.shortcut` lets a point `n` insert a point
`x` before its successor `s`, when `x` lies inside the arc from `n` to `s` and winds to `s`.
`Winds.openLoop` lets a point that is its own successor point to a point that points to it.
`Winds.congr_on` allows any change outside a set of points that is closed under `succ`.

`Winds.cycle` reads the walk from `a` to itself as a list of points at increasing distances
from `a` whose arcs add up to one turn.
-/

set_option autoImplicit false

namespace IdCircle

variable {α : Type}

/-! ### Walks that lead to a goal -/

/-- The walk from `a` along `succ` reaches `goal`. -/
inductive Leads (succ : α → α) (goal : α) : α → Prop
  | here : Leads succ goal goal
  | step {a : α} (w : Leads succ goal (succ a)) : Leads succ goal a

variable {succ succ' : α → α}

/-- A walk that leads somewhere gets there after finitely many steps. -/
theorem Leads.iterate {goal a : α} (h : Leads succ goal a) : ∃ k, succ^[k] a = goal := by
  induction h with
  | here => exact ⟨0, rfl⟩
  | step _ ih =>
    obtain ⟨k, hk⟩ := ih
    exact ⟨k + 1, hk⟩

/-- Walks that lead on compose. -/
theorem Leads.trans {a b c : α} (h : Leads succ b a) (h' : Leads succ c b) :
    Leads succ c a := by
  induction h with
  | here => exact h'
  | step _ ih => exact .step ih

/-- A walk that starts inside a set closed under `succ` sees no change outside it. -/
theorem Leads.congr_on {J : α → Prop} (hclosed : ∀ a, J a → J (succ a))
    (hsame : ∀ a, J a → succ' a = succ a) {goal a : α} (h : Leads succ goal a) (ha : J a) :
    Leads succ' goal a := by
  induction h with
  | here => exact .here
  | @step a w ih =>
    refine .step ?_
    rw [hsame a ha]
    exact ih (hclosed a ha)

/-- A change at the goal alone keeps the walks that lead to it. -/
theorem Leads.congr_off {f : α} (hsame : ∀ a, a ≠ f → succ' a = succ a) {a : α}
    (h : Leads succ f a) : Leads succ' f a := by
  induction h with
  | here => exact .here
  | @step a w ih =>
    by_cases haf : a = f
    · subst haf
      exact .here
    · refine .step ?_
      rw [hsame a haf]
      exact ih

/-- Every cycle is the cycle of the goal all its points lead to. -/
theorem Leads.mem_cycle {f a : α} (h : Leads succ f a) {k : ℕ} (hk : succ^[k + 1] a = a) :
    ∃ m, succ^[m] f = a := by
  induction h with
  | here => exact ⟨0, rfl⟩
  | @step a w ih =>
    have hk' : succ^[k + 1] (succ a) = succ a := by
      rw [← Function.iterate_succ_apply, Function.iterate_succ_apply', hk]
    obtain ⟨m, hm⟩ := ih hk'
    -- Going round once more from `succ a` comes back to `a`.
    refine ⟨k + m, ?_⟩
    rw [Function.iterate_add_apply, hm, ← Function.iterate_succ_apply]
    exact hk

/-! ### Walks that wind to a goal -/

variable [IdCircle α]

/-- The walk from `a` along `succ` reaches `b` inside the arc from `a` to `b`. -/
inductive Winds (succ : α → α) : α → α → Prop
  /-- The successor is the goal. -/
  | last {a b : α} (h : succ a = b) : Winds succ a b
  /-- The successor lies strictly inside the arc, and the walk goes on from there. -/
  | step {a b : α} (h : arc a (succ a) < arc a b) (w : Winds succ (succ a) b) : Winds succ a b

/-- A walk that winds to `b` leads to `b`. -/
theorem Winds.leads {a b : α} (h : Winds succ a b) : Leads succ b a := by
  induction h with
  | last h => subst h; exact .step .here
  | step _ _ ih => exact .step ih

/-- Walks compose when the second goal lies beyond the first. -/
theorem Winds.trans {a b c : α} (h : Winds succ a b) (h' : Winds succ b c)
    (hlt : arc a b < arc a c) : Winds succ a c := by
  induction h with
  | last h =>
    subst h
    exact .step hlt h'
  | step hstep _ ih =>
    -- The successor splits both arcs, so what is left of them is still in order.
    have h1 := arc_add_arc hstep
    have h2 := arc_add_arc (Nat.lt_trans hstep hlt)
    exact .step (Nat.lt_trans hstep hlt) (ih h' (by omega))

/-- A walk that starts inside a set closed under `succ` sees no change outside it. -/
theorem Winds.congr_on {J : α → Prop} (hclosed : ∀ a, J a → J (succ a))
    (hsame : ∀ a, J a → succ' a = succ a) {a b : α} (h : Winds succ a b) (ha : J a) :
    Winds succ' a b := by
  induction h with
  | @last a b h => exact .last ((hsame a ha).trans h)
  | @step a b h w ih =>
    refine .step ?_ ?_ <;> rw [hsame a ha]
    · exact h
    · exact ih (hclosed a ha)

/-! ### Inserting a point before a successor -/

section Shortcut

variable {n x : α} (hsame : ∀ a, a ≠ n → succ' a = succ a) (hn : succ' n = x)
  (hlt : arc n x < arc n (succ n))

include hsame hlt in
/-- A walk inside the arc from `x` to the old successor never meets `n`. -/
theorem Winds.avoids {a : α} (h : Winds succ a (succ n)) (ha : arc a (succ n) ≤ arc x (succ n)) :
    Winds succ' a (succ n) := by
  have hsplit := arc_add_arc hlt
  have hpos := arc_pos n x
  generalize hs : succ n = s at h ha hsplit
  induction h with
  | @last a b h =>
    have han : a ≠ n := by rintro rfl; omega
    exact .last ((hsame a han).trans h)
  | @step a b h w ih =>
    have han : a ≠ n := by rintro rfl; omega
    have h1 := arc_add_arc h
    refine .step ?_ ?_ <;> rw [hsame a han]
    · exact h
    · exact ih hs (by omega) hsplit

include hsame hn hlt in
/-- `n` may point to `x` instead of its successor, when `x` lies inside the arc from `n` to that
successor and winds to it: every walk that wound to its goal still does. -/
theorem Winds.shortcut (hx : Winds succ x (succ n)) {a b : α} (h : Winds succ a b) :
    Winds succ' a b := by
  have hx' : Winds succ' x (succ n) := hx.avoids hsame hlt (Nat.le_refl _)
  induction h with
  | @last a b h =>
    by_cases han : a = n
    · subst han h
      exact .step (hn.symm ▸ hlt) (hn.symm ▸ hx')
    · exact .last ((hsame a han).trans h)
  | @step a b h w ih =>
    by_cases han : a = n
    · subst han
      have hxb : arc a x < arc a b := Nat.lt_trans hlt h
      have h1 := arc_add_arc hxb
      have h2 := arc_add_arc hlt
      have h3 := arc_add_arc h
      refine .step ?_ ?_ <;> rw [hn]
      · exact hxb
      · exact hx'.trans ih (by omega)
    · refine .step ?_ ?_ <;> rw [hsame a han]
      · exact h
      · exact ih

include hsame hn hlt in
/-- The same change keeps every walk that leads to a goal. -/
theorem Leads.shortcut (hx : Winds succ x (succ n)) {goal a : α} (h : Leads succ goal a) :
    Leads succ' goal a := by
  have hx' : Winds succ' x (succ n) := hx.avoids hsame hlt (Nat.le_refl _)
  induction h with
  | here => exact .here
  | @step a w ih =>
    by_cases han : a = n
    · subst han
      exact .step (hn.symm ▸ hx'.leads.trans ih)
    · refine .step ?_
      rw [hsame a han]
      exact ih

end Shortcut

/-! ### Opening a self-loop -/

section OpenLoop

variable {f n : α} (hloop : succ f = f) (hsame : ∀ a, a ≠ f → succ' a = succ a)
  (hf : succ' f = n) (hn : succ n = f) (hnf : n ≠ f)

include hloop hsame hf hn hnf in
/-- A point that is its own successor may point to a point that points to it. -/
theorem Winds.openLoop {a b : α} (h : Winds succ a b) : Winds succ' a b := by
  induction h with
  | @last a b h =>
    by_cases haf : a = f
    · subst haf
      have hba : b = a := h.symm.trans hloop
      subst hba
      -- The new cycle has two points, `f` and `n`.
      refine .step ?_ ?_ <;> rw [hf]
      · have hlt := cw_lt b n
        rw [arc_self, arc_of_ne (Ne.symm hnf)]
        exact hlt
      · exact .last ((hsame n hnf).trans hn)
    · exact .last ((hsame a haf).trans h)
  | @step a b h w ih =>
    have haf : a ≠ f := by
      rintro rfl
      exact ne_of_arc_lt h hloop.symm
    refine .step ?_ ?_ <;> rw [hsame a haf]
    · exact h
    · exact ih

end OpenLoop

/-! ### The cycle of a point that winds to itself -/

omit [IdCircle α] in
/-- A list of points that follow `succ`, whose last point is followed by the first, holds all that
`succ` reaches from the first. -/
theorem iterate_mem_of_isChain {f : α} {l : List α}
    (hchain : (f :: l).IsChain fun u v => v = succ u)
    (hlast : succ ((f :: l).getLast (List.cons_ne_nil f l)) = f) (m : ℕ) :
    succ^[m] f ∈ f :: l := by
  have hstep : ∀ (l : List α) (a : α), (a :: l).IsChain (fun u v => v = succ u) →
      ∀ u ∈ a :: l, succ u ∈ l ∨ u = (a :: l).getLast (List.cons_ne_nil a l) := by
    intro l
    induction l with
    | nil => exact fun a _ u hu => Or.inr (List.mem_singleton.mp hu)
    | cons b l ih =>
      intro a hab u hu
      obtain ⟨rfl, hb⟩ := List.isChain_cons_cons.mp hab
      rcases List.mem_cons.mp hu with rfl | hu
      · exact Or.inl List.mem_cons_self
      · rcases ih _ hb u hu with hmem | hend
        · exact Or.inl (List.mem_cons_of_mem _ hmem)
        · exact Or.inr (hend.trans (List.getLast_cons (List.cons_ne_nil _ l)).symm)
  induction m with
  | zero => exact List.mem_cons_self
  | succ m ih =>
    rw [Function.iterate_succ_apply']
    rcases hstep l f hchain _ ih with hmem | hend
    · exact List.mem_cons_of_mem _ hmem
    · rw [hend, hlast]
      exact List.mem_cons_self

/-- The total length of the arcs along a list of points, from each to the next and from the
last to `goal`. -/
def turn (goal : α) : List α → ℕ
  | [] => 0
  | [a] => arc a goal
  | a :: b :: l => arc a b + turn goal (b :: l)

/-- The points of a walk that winds from `a` to `b`: they follow `succ`, the last one is
followed by `b`, they get strictly closer to `b`, and their arcs add up to the arc from `a`
to `b`. -/
theorem Winds.points {a b : α} (h : Winds succ a b) :
    ∃ l : List α, (a :: l).IsChain (fun u v => v = succ u) ∧
      succ ((a :: l).getLast (List.cons_ne_nil a l)) = b ∧
      (a :: l).Pairwise (fun u v => arc v b < arc u b) ∧ turn b (a :: l) = arc a b := by
  induction h with
  | @last a b h => exact ⟨[], by simp, by simpa using h, by simp, rfl⟩
  | @step a b h w ih =>
    obtain ⟨l, hchain, hlast, hpair, hturn⟩ := ih
    have hsplit := arc_add_arc h
    have hpos := arc_pos a (succ a)
    refine ⟨succ a :: l, ?_, ?_, ?_, ?_⟩
    · exact List.isChain_cons_cons.mpr ⟨rfl, hchain⟩
    · simpa using hlast
    · refine List.pairwise_cons.mpr ⟨fun v hv => ?_, hpair⟩
      rcases List.mem_cons.mp hv with rfl | hv
      · omega
      · have := (List.pairwise_cons.mp hpair).1 v hv
        omega
    · rw [turn, hturn]
      exact hsplit

/-- A point `f` that winds to itself lies on a cycle whose points, listed from `f` on, are at
strictly increasing clockwise distances from `f`, and whose arcs add up to one full turn. -/
theorem Winds.cycle {f : α} (h : Winds succ f f) :
    ∃ l : List α, (f :: l).IsChain (fun u v => v = succ u) ∧
      succ ((f :: l).getLast (List.cons_ne_nil f l)) = f ∧
      (f :: l).Pairwise (fun u v => cw f u < cw f v) ∧ turn f (f :: l) = size α := by
  obtain ⟨l, hchain, hlast, hpair, hturn⟩ := h.points
  refine ⟨l, hchain, hlast, ?_, hturn.trans (arc_self f)⟩
  -- A smaller remaining arc is a larger distance travelled, except at `f` itself.
  refine hpair.imp_of_mem fun {u v} hu hv huv => ?_
  have hv' : v ≠ f := by
    rintro rfl
    have := arc_le u v
    rw [arc_self] at huv
    omega
  have hvt := cw_add_cw hv'
  rw [arc_of_ne hv'] at huv
  by_cases huf : u = f
  · subst huf
    have := cw_pos (Ne.symm hv')
    rw [cw_self]
    omega
  · have hut := cw_add_cw huf
    rw [arc_of_ne huf] at huv
    omega

end IdCircle
