import Mathlib.Data.Finset.Card
import Mathlib.Data.Finset.Filter
import Mathlib.Logic.Relation

/-!
# `search`: asking others in turn, without a record of who was asked

A vertex that has the answer gives it. Any other vertex asks a list of vertices in order, each of
which searches in the same way, and takes the first answer. Nothing records which vertices have
been asked, so on a cycle the search does not end. `search` carries fuel, and `none` means that
the fuel was not enough.

On a finite set of vertices that is closed under asking, fuel for as many nestings as there are
vertices suffices if any does (`search_of_card_le`), and `search_cost` bounds the number of
requests. `ends_iff` says which searches end. A vertex is a dead end (`DeadEnd`) when neither an
answer nor a cycle can be reached from it. A search ends when it starts at a dead end, and when
the first vertices asked that are not dead ends lead to an answer (`FirstLive`).
-/

set_option autoImplicit false

open Relation

namespace Search

variable {V β : Type} (answer : V → Option β) (asks : V → List V)

/-- Asks a list of vertices in order. The result is the first answer, with the number of
requests. -/
def askAll (visit : V → Option (Option β × ℕ)) : List V → Option (Option β × ℕ)
  | [] => some (none, 0)
  | w :: ws =>
    match visit w with
    | none => none
    | some (some b, cost) => some (some b, cost + 1)
    | some (none, cost) =>
      match askAll visit ws with
      | none => none
      | some (r, cost') => some (r, cost + 1 + cost')

/-- The search from a vertex. -/
def search : ℕ → V → Option (Option β × ℕ)
  | 0, _ => none
  | fuel + 1, v =>
    match answer v with
    | some b => some (some b, 0)
    | none => askAll (search fuel) (asks v)

/-- The number of requests that a search makes at most, with `width` requests at each vertex. -/
def requestBound (width : ℕ) : ℕ → ℕ
  | 0 => 0
  | fuel + 1 => width * (requestBound width fuel + 1)

/-- The search ends. -/
def Ends (v : V) : Prop := ∃ fuel result, search answer asks fuel v = some result

/-- One request: a vertex without the answer asks another. -/
def Request (v w : V) : Prop := answer v = none ∧ w ∈ asks v

/-- Neither an answer nor a cycle can be reached. -/
def DeadEnd (v : V) : Prop :=
  ∀ w, ReflTransGen (Request answer asks) v w →
    answer w = none ∧ ¬ TransGen (Request answer asks) w w

/-- `w` is the first vertex that `v` asks and that is no dead end. -/
def FirstLive (v w : V) : Prop :=
  answer v = none ∧ ∃ before after, asks v = before ++ w :: after ∧
    (∀ u ∈ before, DeadEnd answer asks u) ∧ ¬ DeadEnd answer asks w

/-- From `v` the first live vertices lead to an answer. -/
def Leads (v : V) : Prop :=
  ∃ w, ReflTransGen (FirstLive answer asks) v w ∧ (answer w).isSome

variable {answer asks}

/-! ### Asking a list -/

section AskAll

variable {visit visit' : V → Option (Option β × ℕ)} {l : List V}

/-- The list is asked with the results of single vertices only. -/
theorem askAll_congr (h : ∀ w ∈ l, visit w = visit' w) : askAll visit l = askAll visit' l := by
  induction l with
  | nil => rfl
  | cons w ws ih =>
    rw [askAll, askAll, h w List.mem_cons_self,
      ih fun u hu => h u (List.mem_cons_of_mem _ hu)]

/-- A vertex more that returns does not change a result. -/
theorem askAll_mono (h : ∀ w ∈ l, ∀ r, visit w = some r → visit' w = some r)
    {r : Option β × ℕ} (hr : askAll visit l = some r) : askAll visit' l = some r := by
  induction l generalizing r with
  | nil => exact hr
  | cons w ws ih =>
    rw [askAll] at hr ⊢
    cases hw : visit w with
    | none =>
      rw [hw] at hr
      cases hr
    | some result =>
      rw [h w List.mem_cons_self result hw]
      rw [hw] at hr
      obtain ⟨_ | b, cost⟩ := result
      · simp only at hr ⊢
        cases hws : askAll visit ws with
        | none =>
          rw [hws] at hr
          cases hr
        | some rest =>
          rw [ih (fun u hu => h u (List.mem_cons_of_mem _ hu)) hws]
          rw [hws] at hr
          exact hr
      · exact hr

/-- A list without an answer: every vertex has been asked. -/
theorem askAll_none {cost : ℕ} (h : askAll visit l = some (none, cost)) :
    ∀ w ∈ l, ∃ cost, visit w = some (none, cost) := by
  induction l generalizing cost with
  | nil => exact fun w hw => by cases hw
  | cons w ws ih =>
    rw [askAll] at h
    cases hw : visit w with
    | none =>
      rw [hw] at h
      cases h
    | some result =>
      rw [hw] at h
      obtain ⟨_ | b, cost'⟩ := result
      · simp only at h
        cases hws : askAll visit ws with
        | none =>
          rw [hws] at h
          cases h
        | some rest =>
          rw [hws] at h
          obtain ⟨r, cost''⟩ := rest
          obtain rfl : r = none := by cases h; rfl
          intro u hu
          rcases List.mem_cons.mp hu with rfl | hu
          · exact ⟨cost', hw⟩
          · exact ih hws u hu
      · cases h

/-- A list with an answer: the vertices before the one that answered had none. -/
theorem askAll_some {b : β} {cost : ℕ} (h : askAll visit l = some (some b, cost)) :
    ∃ before w after, l = before ++ w :: after ∧
      (∀ u ∈ before, ∃ cost, visit u = some (none, cost)) ∧
      ∃ cost, visit w = some (some b, cost) := by
  induction l generalizing cost with
  | nil => cases h
  | cons w ws ih =>
    rw [askAll] at h
    cases hw : visit w with
    | none =>
      rw [hw] at h
      cases h
    | some result =>
      rw [hw] at h
      obtain ⟨_ | b', cost'⟩ := result
      · simp only at h
        cases hws : askAll visit ws with
        | none =>
          rw [hws] at h
          cases h
        | some rest =>
          rw [hws] at h
          obtain ⟨r, cost''⟩ := rest
          obtain rfl : r = some b := by cases h; rfl
          -- The head has no answer and joins the nodes before the one that answers.
          obtain ⟨before, u, after, rfl, hbefore, hu⟩ := ih hws
          refine ⟨w :: before, u, after, rfl, fun x hx => ?_, hu⟩
          rcases List.mem_cons.mp hx with rfl | hx
          · exact ⟨cost', hw⟩
          · exact hbefore x hx
      · -- The head answers, so the rest is not asked.
        obtain rfl : b' = b := by cases h; rfl
        refine ⟨[], w, ws, rfl, fun x hx => ?_, cost', hw⟩
        cases hx

/-- A list of vertices that have no answer. -/
theorem askAll_of_none (h : ∀ w ∈ l, ∃ cost, visit w = some (none, cost)) :
    ∃ cost, askAll visit l = some (none, cost) := by
  induction l with
  | nil => exact ⟨0, rfl⟩
  | cons w ws ih =>
    obtain ⟨cost, hw⟩ := h w List.mem_cons_self
    obtain ⟨cost', hws⟩ := ih fun u hu => h u (List.mem_cons_of_mem _ hu)
    exact ⟨cost + 1 + cost', by rw [askAll, hw]; simp only [hws]⟩

/-- A list in which vertices without an answer come before one with an answer. -/
theorem askAll_of_some {before after : List V} {w : V} {b : β} {cost : ℕ}
    (hbefore : ∀ u ∈ before, ∃ cost, visit u = some (none, cost))
    (hw : visit w = some (some b, cost)) :
    ∃ cost, askAll visit (before ++ w :: after) = some (some b, cost) := by
  induction before with
  | nil => exact ⟨cost + 1, by rw [List.nil_append, askAll, hw]⟩
  | cons u before ih =>
    obtain ⟨cost₁, hu⟩ := hbefore u List.mem_cons_self
    obtain ⟨cost₂, hrest⟩ := ih fun x hx => hbefore x (List.mem_cons_of_mem _ hx)
    exact ⟨cost₁ + 1 + cost₂, by rw [List.cons_append, askAll, hu]; simp only [hrest]⟩

/-- Each vertex of the list costs its own requests and the one that asks it. -/
theorem askAll_cost {bound : ℕ} (h : ∀ w ∈ l, ∀ r cost, visit w = some (r, cost) → cost ≤ bound)
    {r : Option β} {cost : ℕ} (hr : askAll visit l = some (r, cost)) :
    cost ≤ l.length * (bound + 1) := by
  induction l generalizing r cost with
  | nil =>
    cases hr
    exact Nat.zero_le _
  | cons w ws ih =>
    rw [askAll] at hr
    rw [List.length_cons, Nat.succ_mul]
    cases hw : visit w with
    | none =>
      rw [hw] at hr
      cases hr
    | some result =>
      rw [hw] at hr
      obtain ⟨_ | b, cost'⟩ := result
      · have hle := h w List.mem_cons_self _ _ hw
        simp only at hr
        cases hws : askAll visit ws with
        | none =>
          rw [hws] at hr
          cases hr
        | some rest =>
          rw [hws] at hr
          obtain ⟨r', cost''⟩ := rest
          have hrest := ih (fun u hu => h u (List.mem_cons_of_mem _ hu)) hws
          cases hr
          -- Its own calls, the call to it, and the bound for the rest.
          omega
      · have hle := h w List.mem_cons_self _ _ hw
        cases hr
        omega

end AskAll

/-! ### Fuel -/

section Fuel

variable {v : V} {r : Option β × ℕ}

/-- The search at a vertex without the answer. -/
theorem search_succ_of_none (h : answer v = none) (fuel : ℕ) :
    search answer asks (fuel + 1) v = askAll (search answer asks fuel) (asks v) := by
  rw [search, h]

/-- More fuel does not change a result. -/
theorem search_succ {fuel : ℕ} (h : search answer asks fuel v = some r) :
    search answer asks (fuel + 1) v = some r := by
  induction fuel generalizing v r with
  | zero => cases h
  | succ fuel ih =>
    rw [search] at h ⊢
    cases hv : answer v with
    | some b =>
      rw [hv] at h
      exact h
    | none =>
      rw [hv] at h
      exact askAll_mono (fun w _ r hw => ih hw) h

/-- More fuel keeps the result. -/
theorem search_le {fuel fuel' : ℕ} (hle : fuel ≤ fuel') (h : search answer asks fuel v = some r) :
    search answer asks fuel' v = some r := by
  induction hle with
  | refl => exact h
  | step _ ih => exact search_succ ih

/-- The result does not depend on the fuel. -/
theorem search_unique {r' : Option β × ℕ} {fuel fuel' : ℕ}
    (h : search answer asks fuel v = some r) (h' : search answer asks fuel' v = some r') :
    r = r' := by
  have h := search_le (Nat.le_max_left fuel fuel') h
  rw [search_le (Nat.le_max_right fuel fuel') h'] at h
  exact (Option.some.inj h).symm

/-- A search with fuel for some nestings makes a bounded number of requests. -/
theorem search_cost {width : ℕ} (hwidth : ∀ v, (asks v).length ≤ width) (fuel : ℕ) :
    ∀ {v : V} {r : Option β} {cost : ℕ}, search answer asks fuel v = some (r, cost) →
      cost ≤ requestBound width fuel := by
  induction fuel with
  | zero => exact fun h => by cases h
  | succ fuel ih =>
    intro v r cost h
    cases hv : answer v with
    | some b =>
      rw [search, hv] at h
      cases h
      exact Nat.zero_le _
    | none =>
      rw [search_succ_of_none hv] at h
      have hcost := askAll_cost (fun w _ r cost hw => ih hw) h
      exact hcost.trans (Nat.mul_le_mul_right _ (hwidth v))

end Fuel

/-! ### A finite set of vertices -/

section Finite

variable {S : Finset V}

/-- When one nesting more lets no further vertex return, none ever returns after it. -/
theorem search_fixed (hS : ∀ v ∈ S, answer v = none → ∀ w ∈ asks v, w ∈ S) {n : ℕ}
    (h : ∀ v ∈ S, search answer asks (n + 1) v = search answer asks n v) (k : ℕ) :
    ∀ v ∈ S, search answer asks (n + k) v = search answer asks n v := by
  induction k with
  | zero => exact fun _ _ => rfl
  | succ k ih =>
    intro v hv
    rw [← h v hv, ← Nat.add_assoc, search, search]
    cases hans : answer v with
    | some b => rfl
    | none => exact askAll_congr fun w hw => ih w (hS v hv hans w hw)

/-- Either some number of nestings below `n` is as good as any other, or at least `n` vertices
return within `n` nestings. -/
theorem search_progress (n : ℕ) :
    (∃ k < n, ∀ v ∈ S, search answer asks (k + 1) v = search answer asks k v) ∨
      n ≤ (S.filter fun v => (search answer asks n v).isSome).card := by
  induction n with
  | zero => exact Or.inr (Nat.zero_le _)
  | succ n ih =>
    rcases ih with ⟨k, hk, hfixed⟩ | hcard
    · exact Or.inl ⟨k, by omega, hfixed⟩
    · by_cases hfixed : ∀ v ∈ S, search answer asks (n + 1) v = search answer asks n v
      · exact Or.inl ⟨n, Nat.lt_succ_self n, hfixed⟩
      · -- Some vertex returns with the nesting more, and none stops returning.
        right
        push Not at hfixed
        obtain ⟨v, hv, hne⟩ := hfixed
        have hold : search answer asks n v = none := by
          cases hn : search answer asks n v with
          | none => rfl
          | some r => exact absurd ((search_succ hn).trans hn.symm) hne
        refine hcard.trans_lt (Finset.card_lt_card ?_)
        refine Finset.ssubset_iff_of_subset (fun u hu => ?_) |>.mpr ⟨v, ?_, ?_⟩
        · rw [Finset.mem_filter] at hu ⊢
          obtain ⟨r, hr⟩ := Option.isSome_iff_exists.mp hu.2
          exact ⟨hu.1, by rw [search_succ hr]; rfl⟩
        · rw [Finset.mem_filter, Option.isSome_iff_ne_none]
          exact ⟨hv, fun hnone => hne (hnone.trans hold.symm)⟩
        · rw [Finset.mem_filter, hold]
          exact fun h => Bool.false_ne_true h.2

/-- Fuel for as many nestings as there are vertices suffices, if any does. -/
theorem search_of_card_le (hS : ∀ v ∈ S, answer v = none → ∀ w ∈ asks v, w ∈ S) {v : V}
    (hv : v ∈ S) {m : ℕ} {r : Option β × ℕ} (h : search answer asks m v = some r) :
    search answer asks S.card v = some r := by
  have hprogress : (∃ k < S.card, ∀ v ∈ S, search answer asks (k + 1) v = search answer asks k v) ∨
      S.card ≤ (S.filter fun v => (search answer asks S.card v).isSome).card := search_progress _
  rcases hprogress with ⟨k, hk, hfixed⟩ | hcard
  · have h := search_le (Nat.le_max_left m k) h
    obtain ⟨j, hj⟩ := Nat.exists_eq_add_of_le (Nat.le_max_right m k)
    rw [hj, search_fixed hS hfixed j v hv] at h
    exact search_le hk.le h
  · -- Every vertex returns.
    have hall := Finset.eq_of_subset_of_card_le (Finset.filter_subset _ S) hcard
    have hv' := hall ▸ hv
    obtain ⟨r', hr'⟩ := Option.isSome_iff_exists.mp (Finset.mem_filter.mp hv').2
    rw [hr', search_unique h hr']

end Finite

/-! ### Which searches end -/

section Ends

variable {v w : V}

/-- From a dead end, every request leads to another one. -/
theorem DeadEnd.of_request (h : DeadEnd answer asks v) (hvw : Request answer asks v w) :
    DeadEnd answer asks w :=
  fun u hu => h u (hu.head hvw)

/-- A vertex that asks dead ends only is one. -/
theorem DeadEnd.of_asks (hv : answer v = none) (h : ∀ w ∈ asks v, DeadEnd answer asks w) :
    DeadEnd answer asks v := by
  intro w hw
  rcases hw.cases_head with rfl | ⟨u, ⟨-, hu⟩, huw⟩
  · refine ⟨hv, fun hcycle => ?_⟩
    obtain ⟨u, ⟨-, hu⟩, huv⟩ := TransGen.head'_iff.mp hcycle
    exact (h u hu v huv).2 hcycle
  · exact h u hu w huw

/-- An answer that can be reached. -/
theorem Leads.not_deadEnd (h : Leads answer asks v) : ¬ DeadEnd answer asks v := by
  obtain ⟨w, hvw, hw⟩ := h
  intro hdead
  have hreach : ReflTransGen (Request answer asks) v w := by
    refine ReflTransGen.mono ?_ _ _ hvw
    rintro a b ⟨ha, before, after, hasks, -, -⟩
    exact ⟨ha, by rw [hasks]; exact List.mem_append_right _ List.mem_cons_self⟩
  rw [(hdead w hreach).1] at hw
  cases hw

/-- A search without an answer was at a dead end. -/
theorem deadEnd_of_search (fuel : ℕ) : ∀ {v : V} {cost : ℕ},
    search answer asks fuel v = some (none, cost) → DeadEnd answer asks v := by
  induction fuel with
  | zero => exact fun h => by cases h
  | succ fuel ih =>
    intro v cost h
    cases hv : answer v with
    | some b =>
      rw [search, hv] at h
      cases h
    | none =>
      rw [search_succ_of_none hv] at h
      refine .of_asks hv fun w hw => ?_
      obtain ⟨cost', hw'⟩ := askAll_none h w hw
      exact ih hw'

/-- A search with an answer was led to it. -/
theorem led_of_search (fuel : ℕ) : ∀ {v : V} {b : β} {cost : ℕ},
    search answer asks fuel v = some (some b, cost) →
      ∃ w, ReflTransGen (FirstLive answer asks) v w ∧ answer w = some b := by
  induction fuel with
  | zero => exact fun h => by cases h
  | succ fuel ih =>
    intro v b cost h
    cases hv : answer v with
    | some b' =>
      rw [search, hv] at h
      cases h
      exact ⟨v, .refl, hv⟩
    | none =>
      rw [search_succ_of_none hv] at h
      obtain ⟨before, w, after, hasks, hbefore, cost', hw⟩ := askAll_some h
      obtain ⟨u, hwu, hu⟩ := ih hw
      have hlive : ¬ DeadEnd answer asks w := Leads.not_deadEnd ⟨u, hwu, by rw [hu]; rfl⟩
      refine ⟨u, hwu.head ⟨hv, before, after, hasks, fun x hx => ?_, hlive⟩, hu⟩
      obtain ⟨cost'', hx'⟩ := hbefore x hx
      exact deadEnd_of_search fuel hx'

variable {S : Finset V}

/-- A search at a dead end ends without an answer. The induction is on the number of vertices
that can still be reached: on no cycle, each request loses the vertex it goes to. -/
theorem search_of_deadEnd (hS : ∀ v ∈ S, answer v = none → ∀ w ∈ asks v, w ∈ S) (hv : v ∈ S)
    (h : DeadEnd answer asks v) : ∃ cost, search answer asks S.card v = some (none, cost) := by
  classical
  let reachable : V → Finset V := fun v => S.filter fun w => TransGen (Request answer asks) v w
  induction hn : (reachable v).card using Nat.strong_induction_on generalizing v with
  | h n ih =>
    subst hn
    have hnone : answer v = none := (h v .refl).1
    have hasks : ∀ w ∈ asks v, ∃ cost, search answer asks S.card w = some (none, cost) := by
      intro w hw
      have hreq : Request answer asks v w := ⟨hnone, hw⟩
      have hwS := hS v hv hnone w hw
      refine ih _ (Finset.card_lt_card ?_) hwS (h.of_request hreq) rfl
      refine (Finset.ssubset_iff_of_subset fun u hu => ?_).mpr ⟨w, ?_, ?_⟩
      · rw [Finset.mem_filter] at hu ⊢
        exact ⟨hu.1, hu.2.head hreq⟩
      · exact Finset.mem_filter.mpr ⟨hwS, .single hreq⟩
      · exact fun hcycle => (h w (.single hreq)).2 (Finset.mem_filter.mp hcycle).2
    obtain ⟨cost, hcost⟩ := askAll_of_none hasks
    refine ⟨cost, search_of_card_le hS hv (m := S.card + 1) ?_⟩
    rw [search_succ_of_none hnone, hcost]

/-- A search that is led to an answer ends with it. -/
theorem search_of_led (hS : ∀ v ∈ S, answer v = none → ∀ w ∈ asks v, w ∈ S) (hv : v ∈ S) {b : β}
    (hvw : ReflTransGen (FirstLive answer asks) v w) (hw : answer w = some b) :
    ∃ cost, search answer asks S.card v = some (some b, cost) := by
  induction hvw using ReflTransGen.head_induction_on with
  | refl =>
    refine ⟨0, search_of_card_le hS hv (m := 1) ?_⟩
    rw [search, hw]
  | head hfirst _ ih =>
    obtain ⟨hnone, before, after, hasks, hbefore, -⟩ := hfirst
    have hmem : ∀ x ∈ before ++ _ :: after, x ∈ S := fun x hx =>
      hS _ hv hnone x (hasks ▸ hx)
    obtain ⟨cost, hcost⟩ := ih (hmem _ (List.mem_append_right _ List.mem_cons_self))
    have hdead : ∀ x ∈ before, ∃ cost, search answer asks S.card x = some (none, cost) :=
      fun x hx => search_of_deadEnd hS (hmem x (List.mem_append_left _ hx)) (hbefore x hx)
    obtain ⟨cost', hcost'⟩ := askAll_of_some hdead hcost
    refine ⟨cost', search_of_card_le hS hv (m := S.card + 1) ?_⟩
    rw [search_succ_of_none hnone, hasks, hcost']

/-- Which searches end. -/
theorem ends_iff (hS : ∀ v ∈ S, answer v = none → ∀ w ∈ asks v, w ∈ S) (hv : v ∈ S) :
    Ends answer asks v ↔ DeadEnd answer asks v ∨ Leads answer asks v := by
  constructor
  · rintro ⟨fuel, ⟨_ | b, cost⟩, h⟩
    · exact Or.inl (deadEnd_of_search fuel h)
    · obtain ⟨w, hvw, hw⟩ := led_of_search fuel h
      exact Or.inr ⟨w, hvw, by rw [hw]; rfl⟩
  · rintro (h | ⟨w, hvw, hw⟩)
    · obtain ⟨cost, h⟩ := search_of_deadEnd hS hv h
      exact ⟨S.card, _, h⟩
    · obtain ⟨b, hb⟩ := Option.isSome_iff_exists.mp hw
      obtain ⟨cost, h⟩ := search_of_led hS hv hvw hb
      exact ⟨S.card, _, h⟩

end Ends

/-! ### Which vertices answer -/

section Answers

variable {γ : Type} {answer' : V → Option γ} {S : Finset V} {v w : V}

/-- Paths of one relation are paths of another that has its steps on a closed set. -/
theorem reflTransGen_of_steps {r r' : V → V → Prop}
    (h : ∀ v ∈ S, ∀ w, r v w → r' v w ∧ w ∈ S) (hv : v ∈ S) (hvw : ReflTransGen r v w) :
    ReflTransGen r' v w ∧ w ∈ S := by
  induction hvw with
  | refl => exact ⟨.refl, hv⟩
  | tail _ hstep ih =>
    obtain ⟨hstep', hw⟩ := h _ ih.2 _ hstep
    exact ⟨ih.1.tail hstep', hw⟩

/-- Dead ends depend on which vertices answer, not on the answers. -/
theorem DeadEnd.of_answers (hS : ∀ v ∈ S, answer' v = none → ∀ w ∈ asks v, w ∈ S)
    (h : ∀ v ∈ S, (answer v = none ↔ answer' v = none)) (hv : v ∈ S)
    (hdead : DeadEnd answer asks v) : DeadEnd answer' asks v := by
  have hstep : ∀ a ∈ S, ∀ b, Request answer' asks a b → Request answer asks a b ∧ b ∈ S := by
    rintro a ha b ⟨hnone, hb⟩
    exact ⟨⟨(h a ha).mpr hnone, hb⟩, hS a ha hnone b hb⟩
  intro w hvw
  obtain ⟨hvw, hw⟩ := reflTransGen_of_steps hstep hv hvw
  obtain ⟨hnone, hcycle⟩ := hdead w hvw
  refine ⟨(h w hw).mp hnone, fun hback => hcycle ?_⟩
  obtain ⟨u, hwu, huw⟩ := TransGen.head'_iff.mp hback
  obtain ⟨hwu, hu⟩ := hstep w hw u hwu
  exact TransGen.head' hwu (reflTransGen_of_steps hstep hu huw).1

/-- So do the paths along the first live vertices. -/
theorem led_of_answers (hS : ∀ v ∈ S, answer v = none → ∀ w ∈ asks v, w ∈ S)
    (h : ∀ v ∈ S, (answer v = none ↔ answer' v = none)) (hv : v ∈ S)
    (hvw : ReflTransGen (FirstLive answer asks) v w) :
    ReflTransGen (FirstLive answer' asks) v w ∧ w ∈ S := by
  have hS' : ∀ v ∈ S, answer' v = none → ∀ w ∈ asks v, w ∈ S := fun v hv hnone =>
    hS v hv ((h v hv).mpr hnone)
  refine reflTransGen_of_steps ?_ hv hvw
  rintro a ha b ⟨hnone, before, after, hasks, hbefore, hlive⟩
  have hmem : ∀ u ∈ before ++ b :: after, u ∈ S := fun u hu => hS a ha hnone u (hasks ▸ hu)
  have hb : b ∈ S := hmem b (List.mem_append_right _ List.mem_cons_self)
  refine ⟨⟨(h a ha).mp hnone, before, after, hasks, fun u hu => ?_, fun hdead => hlive ?_⟩, hb⟩
  · exact (hbefore u hu).of_answers hS' h (hmem u (List.mem_append_left _ hu))
  · exact hdead.of_answers hS (fun v hv => (h v hv).symm) hb

end Answers

end Search
