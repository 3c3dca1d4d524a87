import Mathlib.Data.Finset.Max
import Mathlib.Data.Finset.Card
import Mathlib.Logic.Function.Iterate

/-!
# `IdCircle`: identifiers on a circle

A type of identifiers has a position on a circle of `size` points. Clockwise is the
direction of growing positions. The module has two layers.

* Distances. `cw a b` is the clockwise distance from `a` to `b`, and `arc a b` is the
  length of the arc from `a`, exclusive, to `b`, inclusive, where the arc from a point to
  itself is the whole circle. `cw_triangle` is the one fact about three points that every
  later argument needs. `InArc x s e` says that `x` lies on the arc from `s` to `e`, and
  `Inside x s e` that it lies strictly between its ends.
* Nearest members. For a finite set `R` of identifiers, `next R a` is the first member
  strictly clockwise after `a` (it is `a` itself when `R = {a}`), `prev R b` is the first
  member strictly counterclockwise before `b`, and `owner R k` is the first member at or
  clockwise after `k`.

`owner_eq_of_inArc` and `inArc_of_owner_eq` connect the two layers: `next R a` owns `k`
exactly when `k` lies on the arc from `a` to `next R a`. `iterate_next_ne` and `iterate_next_card`
say that the steps of `next R` pass every member once before they come back.
-/

set_option autoImplicit false

/-- Identifiers with distinct positions on a circle of `size` points. -/
class IdCircle (α : Type) where
  /-- The number of points of the circle. -/
  size : ℕ
  /-- The position of an identifier. -/
  pos : α → ℕ
  pos_lt : ∀ a, pos a < size
  pos_inj : ∀ a b, pos a = pos b → a = b

namespace IdCircle

variable {α : Type} [IdCircle α]

/-! ### Distances -/

/-- The clockwise distance from `a` to `b`. -/
def cw (a b : α) : ℕ := (pos b + size α - pos a) % size α

/-- The length of the arc from `a`, exclusive, to `b`, inclusive. The arc from a point to
itself goes round the whole circle. -/
def arc (a b : α) : ℕ := if cw a b = 0 then size α else cw a b

/-- `x` lies on the arc from `s`, exclusive, to `e`, inclusive. No point lies on the arc from a
point to itself. -/
def InArc (x s e : α) : Prop := 0 < cw s x ∧ cw s x ≤ cw s e

/-- `x` lies on the arc from `s` to `e`, strictly between its ends. -/
def Inside (x s e : α) : Prop := InArc x s e ∧ x ≠ e

/-- A distance in terms of positions, without the remainder. -/
theorem cw_eq (a b : α) :
    cw a b = if pos a ≤ pos b then pos b - pos a else pos b + size α - pos a := by
  have ha := pos_lt a
  have hb := pos_lt b
  unfold cw
  split
  · rw [show pos b + size α - pos a = (pos b - pos a) + size α by omega, Nat.add_mod_right]
    exact Nat.mod_eq_of_lt (by omega)
  · exact Nat.mod_eq_of_lt (by omega)

/-- A distance is less than a turn. -/
theorem cw_lt (a b : α) : cw a b < size α := by
  exact Nat.mod_lt _ (Nat.lt_of_le_of_lt (Nat.zero_le _) (pos_lt a))

/-- A point has no distance to itself. -/
@[simp] theorem cw_self (a : α) : cw a a = 0 := by
  simp [cw_eq]

/-- Distinct points are at a positive distance. -/
theorem cw_eq_zero {a b : α} : cw a b = 0 ↔ a = b := by
  constructor
  · intro h
    have ha := pos_lt a
    rw [cw_eq] at h
    refine pos_inj a b ?_
    split at h <;> omega
  · rintro rfl
    exact cw_self a

/-- Two points have a distance. -/
theorem cw_pos {a b : α} (h : a ≠ b) : 0 < cw a b :=
  Nat.pos_of_ne_zero fun h0 => h (cw_eq_zero.mp h0)

/-- Going from `a` to `b` and on to `c` reaches `c` directly, or after one full turn. -/
theorem cw_triangle (a b c : α) :
    cw a b + cw b c = cw a c ∨ cw a b + cw b c = cw a c + size α := by
  have ha := pos_lt a
  have hb := pos_lt b
  have hc := pos_lt c
  rw [cw_eq a b, cw_eq b c, cw_eq a c]
  split <;> split <;> split <;> omega

/-- Going to a different point and back is one full turn. -/
theorem cw_add_cw {a b : α} (h : a ≠ b) : cw a b + cw b a = size α := by
  have h1 := cw_pos h
  rcases cw_triangle a b a with h2 | h2 <;> rw [cw_self] at h2 <;> omega

/-- The arc from a point to itself is the whole circle. -/
@[simp] theorem arc_self (a : α) : arc a a = size α := by
  simp [arc]

/-- The arc between two points is their distance. -/
theorem arc_of_ne {a b : α} (h : a ≠ b) : arc a b = cw a b := by
  have := cw_pos h
  rw [arc, if_neg (by omega)]

/-- No arc is empty. -/
theorem arc_pos (a b : α) : 0 < arc a b := by
  have := cw_lt a b
  unfold arc
  split <;> omega

/-- An arc is at most a turn. -/
theorem arc_le (a b : α) : arc a b ≤ size α := by
  have := cw_lt a b
  unfold arc
  split <;> omega

/-- A shorter arc from `a` does not end in `a`. -/
theorem ne_of_arc_lt {a b c : α} (h : arc a b < arc a c) : a ≠ b := by
  rintro rfl
  have := arc_le a c
  rw [arc_self] at h
  omega

/-- A point strictly inside an arc splits it. -/
theorem arc_add_arc {a b c : α} (h : arc a b < arc a c) : arc a b + arc b c = arc a c := by
  have hab : a ≠ b := ne_of_arc_lt h
  have hbc : b ≠ c := by
    rintro rfl
    omega
  rw [arc_of_ne hab] at h ⊢
  rw [arc_of_ne hbc]
  by_cases hac : a = c
  · subst hac
    rw [arc_self]
    exact cw_add_cw hab
  · rw [arc_of_ne hac] at h ⊢
    have hlt := cw_lt b c
    rcases cw_triangle a b c with h1 | h1 <;> omega

/-- Membership in an arc, by distances to the end. -/
theorem inArc_iff {x s e : α} :
    InArc x s e ↔ s ≠ x ∧ cw s x + cw x e = cw s e := by
  have hxe := cw_lt x e
  unfold InArc
  constructor
  · rintro ⟨h0, hle⟩
    have hsx : s ≠ x := fun h => by simp [h] at h0
    refine ⟨hsx, ?_⟩
    rcases cw_triangle s x e with h | h <;> omega
  · rintro ⟨hsx, h⟩
    exact ⟨cw_pos hsx, by omega⟩

/-- Membership in an arc, by arc lengths: the arc to `x` is no longer. -/
theorem inArc_iff_arc_le {x s e : α} (hse : s ≠ e) : InArc x s e ↔ arc s x ≤ arc s e := by
  have hlt := cw_lt s e
  rw [arc_of_ne hse]
  unfold InArc arc
  split <;> omega

/-- A point lies on no arc that starts at it. -/
theorem not_inArc_start {s e : α} : ¬ InArc s s e := by
  simp [InArc]

/-- No point lies on the arc from a point to itself. -/
theorem not_inArc_self {x s : α} : ¬ InArc x s s := by
  rintro ⟨h0, hle⟩
  rw [cw_self] at hle
  omega

/-- A point of an arc is nearer to its end than the start is. -/
theorem InArc.cw_lt_cw {x s e : α} (h : InArc x s e) : cw x e < cw s e := by
  obtain ⟨hne, hsum⟩ := inArc_iff.mp h
  have hpos := cw_pos hne
  omega

/-- The rest of an arc lies on it. -/
theorem InArc.trans {x y s e : α} (h : InArc x y e) (hy : InArc y s e) : InArc x s e := by
  obtain ⟨hne, hsum⟩ := inArc_iff.mp h
  obtain ⟨hne', hsum'⟩ := inArc_iff.mp hy
  have hlt := cw_lt s e
  have hpos := cw_pos hne'
  unfold InArc
  rcases cw_triangle s y x with h1 | h1 <;> omega

/-- The end of an arc between distinct points lies on it. -/
theorem inArc_end {s e : α} (h : s ≠ e) : InArc e s e := ⟨cw_pos h, Nat.le_refl _⟩

/-! ### Nearest members -/

variable (R : Finset α)

/-- The first member of `R` strictly clockwise after `a`. -/
noncomputable def next (a : α) : α :=
  if h : R.Nonempty then (R.exists_min_image (arc a) h).choose else a

/-- The first member of `R` strictly counterclockwise before `b`. -/
noncomputable def prev (b : α) : α :=
  if h : R.Nonempty then (R.exists_min_image (fun a => arc a b) h).choose else b

/-- The first member of `R` at or clockwise after `k`. -/
noncomputable def owner (k : α) : α :=
  if h : R.Nonempty then (R.exists_min_image (cw k) h).choose else k

variable {R}

/-- The next member is a member. -/
theorem next_mem (h : R.Nonempty) (a : α) : next R a ∈ R := by
  rw [next, dif_pos h]
  exact (R.exists_min_image (arc a) h).choose_spec.1

/-- No member comes before `next R a` when going clockwise from `a`. -/
theorem arc_next_le {c : α} (hc : c ∈ R) (a : α) : arc a (next R a) ≤ arc a c := by
  rw [next, dif_pos ⟨c, hc⟩]
  exact (R.exists_min_image (arc a) ⟨c, hc⟩).choose_spec.2 c hc

/-- The member before is a member. -/
theorem prev_mem (h : R.Nonempty) (b : α) : prev R b ∈ R := by
  rw [prev, dif_pos h]
  exact (R.exists_min_image (fun a => arc a b) h).choose_spec.1

/-- No member lies between `prev R b` and `b`. -/
theorem arc_prev_le {c : α} (hc : c ∈ R) (b : α) : arc (prev R b) b ≤ arc c b := by
  rw [prev, dif_pos ⟨c, hc⟩]
  exact (R.exists_min_image (fun a => arc a b) ⟨c, hc⟩).choose_spec.2 c hc

/-- The owner is a member. -/
theorem owner_mem (h : R.Nonempty) (k : α) : owner R k ∈ R := by
  rw [owner, dif_pos h]
  exact (R.exists_min_image (cw k) h).choose_spec.1

/-- No member comes before `owner R k` when going clockwise from `k`. -/
theorem cw_owner_le {c : α} (hc : c ∈ R) (k : α) : cw k (owner R k) ≤ cw k c := by
  rw [owner, dif_pos ⟨c, hc⟩]
  exact (R.exists_min_image (cw k) ⟨c, hc⟩).choose_spec.2 c hc

/-- Arcs from one point have distinct lengths to distinct points. -/
theorem arc_inj_right {a b c : α} (h : arc a b = arc a c) : b = c := by
  have hb := cw_lt a b
  have hc := cw_lt a c
  have hcw : cw a b = cw a c := by
    unfold arc at h
    split at h <;> split at h <;> omega
  have hlt := cw_lt b c
  rcases cw_triangle a b c with h1 | h1
  · exact cw_eq_zero.mp (by omega)
  · omega

/-- Arcs to one point have distinct lengths from distinct points. -/
theorem arc_inj_left {a b c : α} (h : arc a c = arc b c) : a = b := by
  have ha := cw_lt a c
  have hb := cw_lt b c
  have hcw : cw a c = cw b c := by
    unfold arc at h
    split at h <;> split at h <;> omega
  have hlt := cw_lt a b
  rcases cw_triangle a b c with h1 | h1
  · exact cw_eq_zero.mp (by omega)
  · omega

/-- A nearest member is the next one. -/
theorem next_eq {a b : α} (hb : b ∈ R) (h : ∀ c ∈ R, arc a b ≤ arc a c) : next R a = b :=
  arc_inj_right (Nat.le_antisymm (arc_next_le hb a) (h _ (next_mem ⟨b, hb⟩ a)))

/-- A nearest member at or after `k` is the owner. -/
theorem owner_eq {k b : α} (hb : b ∈ R) (h : ∀ c ∈ R, cw k b ≤ cw k c) : owner R k = b := by
  have heq : cw k (owner R k) = cw k b :=
    Nat.le_antisymm (cw_owner_le hb k) (h _ (owner_mem ⟨b, hb⟩ k))
  have hlt := cw_lt (owner R k) b
  rcases cw_triangle k (owner R k) b with h1 | h1
  · exact cw_eq_zero.mp (by omega)
  · omega

/-- In a one-member set every point is owned by the member. -/
@[simp] theorem owner_singleton (k a : α) : owner {a} k = a :=
  Finset.mem_singleton.mp (owner_mem (Finset.singleton_nonempty a) k)

/-- A single member is next to everything. -/
@[simp] theorem next_singleton (k a : α) : next {a} k = a :=
  Finset.mem_singleton.mp (next_mem (Finset.singleton_nonempty a) k)

/-- A single member comes before everything. -/
@[simp] theorem prev_singleton (k a : α) : prev {a} k = a :=
  Finset.mem_singleton.mp (prev_mem (Finset.singleton_nonempty a) k)

/-- The next member differs from a member unless it is the only one. -/
theorem next_ne {a c : α} (hc : c ∈ R) (hca : c ≠ a) : next R a ≠ a := by
  intro h
  have hle := arc_next_le hc a
  have hlt := cw_lt a c
  rw [h, arc_self, arc_of_ne (Ne.symm hca)] at hle
  omega

omit [IdCircle α] in
/-- A nonempty set that is no singleton has two members. -/
theorem one_lt_card (hR : R.Nonempty) (hone : R.card ≠ 1) : 1 < R.card :=
  Nat.lt_of_le_of_ne (Finset.card_pos.mpr hR) (Ne.symm hone)

/-- In a set of two members or more the next one is another one. -/
theorem next_ne_self {a : α} (hcard : 1 < R.card) : next R a ≠ a := by
  obtain ⟨c, hc, hca⟩ := Finset.exists_mem_ne hcard a
  exact next_ne hc hca

/-- Only the member of a singleton is its own next one. -/
theorem next_eq_self_iff {a : α} (ha : a ∈ R) : next R a = a ↔ R.card = 1 := by
  constructor
  · intro h
    by_contra hone
    exact next_ne_self (one_lt_card ⟨a, ha⟩ hone) h
  · intro hone
    exact Finset.card_le_one.mp (Nat.le_of_eq hone) _ (next_mem ⟨a, ha⟩ a) _ ha

/-- `prev R` inverts `next R`. -/
theorem next_prev {b : α} (hb : b ∈ R) : next R (prev R b) = b := by
  refine next_eq hb fun c hc => ?_
  by_contra hlt
  have hlt : arc (prev R b) c < arc (prev R b) b := by omega
  have hsplit := arc_add_arc hlt
  have hle := arc_prev_le hc b
  have hpos := arc_pos (prev R b) c
  omega

/-- `next R` inverts `prev R`. -/
theorem prev_next {a : α} (ha : a ∈ R) : prev R (next R a) = a := by
  have hp : prev R (next R a) ∈ R := prev_mem ⟨a, ha⟩ _
  have h1 : arc (prev R (next R a)) (next R a) ≤ arc a (next R a) := arc_prev_le ha _
  refine arc_inj_left (Nat.le_antisymm h1 ?_)
  -- Otherwise the predecessor lies strictly inside the arc from `a` to `next R a`.
  by_contra hlt
  have h2 := arc_next_le hp a
  have hne : a ≠ prev R (next R a) := fun h => by rw [← h] at hlt; omega
  rcases Nat.lt_or_ge (arc a (next R a)) (arc a (prev R (next R a))) with h3 | h3
  · have h4 := arc_add_arc h3
    have h5 : arc (next R a) (prev R (next R a)) + arc (prev R (next R a)) (next R a)
        ≥ size α := by
      by_cases he : next R a = prev R (next R a)
      · have := arc_self (next R a)
        rw [← he]
        omega
      · rw [arc_of_ne he, arc_of_ne (Ne.symm he), cw_add_cw he]
    have h6 := arc_le a (prev R (next R a))
    omega
  · have h7 : prev R (next R a) = next R a := arc_inj_right (Nat.le_antisymm h3 h2)
    rw [h7, arc_self] at h1 hlt
    have := arc_le a (next R a)
    omega

/-- The next member owns the points of the arc that leads to it. -/
theorem owner_eq_of_inArc {a k : α} (ha : a ∈ R) (h : InArc k a (next R a)) :
    owner R k = next R a := by
  refine owner_eq (next_mem ⟨a, ha⟩ a) fun c hc => ?_
  have hne : a ≠ next R a := by
    intro he
    rw [← he] at h
    exact not_inArc_self h
  obtain ⟨hak, hsum⟩ := inArc_iff.mp h
  have hle := arc_next_le hc a
  have hlt := cw_lt k c
  have hka := cw_add_cw hak
  rw [arc_of_ne hne] at hle
  by_cases hca : c = a
  · subst hca
    have := cw_lt c (next R c)
    omega
  · rw [arc_of_ne (Ne.symm hca)] at hle
    rcases cw_triangle a k c with h1 | h1 <;> omega

/-- The points a next member owns lie on the arc that leads to it. -/
theorem inArc_of_owner_eq {a k : α} (ha : a ∈ R) (hne : a ≠ next R a)
    (h : owner R k = next R a) : InArc k a (next R a) := by
  rw [inArc_iff]
  have hle : cw k (next R a) ≤ cw k a := h ▸ cw_owner_le ha k
  have hak : a ≠ k := by
    rintro rfl
    have := cw_pos hne
    rw [cw_self] at hle
    omega
  refine ⟨hak, ?_⟩
  have hpos := cw_pos hne
  have hka := cw_add_cw hak
  rcases cw_triangle a k (next R a) with h1 | h1 <;> omega

/-! ### Going round -/

/-- The members after a member are members. -/
theorem iterate_next_mem {a : α} (ha : a ∈ R) (k : ℕ) : (next R)^[k] a ∈ R := by
  cases k with
  | zero => exact ha
  | succ k =>
    rw [Function.iterate_succ_apply']
    exact next_mem ⟨a, ha⟩ _

/-- The members on the arc from `a` to `b`. -/
noncomputable def upTo (R : Finset α) (a b : α) : Finset α := R.filter fun c => arc a c ≤ arc a b

/-- The arc to the next member has one member more, unless the round is complete. -/
theorem card_upTo_next {a b : α} (ha : a ∈ R) (hba : b ≠ a) :
    (upTo R a (next R b)).card = (upTo R a b).card + 1 := by
  classical
  have hn : next R b ∈ R := next_mem ⟨a, ha⟩ b
  -- The arcs from `a` to the members after `b` are those from `b`, lengthened.
  have hbsize : arc a b < arc a a := by
    rw [arc_self, arc_of_ne (Ne.symm hba)]
    exact cw_lt a b
  have hround := arc_add_arc hbsize
  have hna := arc_next_le ha b
  have hlt : arc a b < arc a (next R b) := by
    by_contra hge
    rcases Nat.eq_or_lt_of_le (Nat.le_of_not_lt hge) with heq | hlt
    · exact next_ne ha (Ne.symm hba) (arc_inj_right heq)
    · have hback := arc_add_arc hlt
      have hne : b ≠ next R b := Ne.symm (next_ne ha (Ne.symm hba))
      have hpos := arc_pos a (next R b)
      have hcw := cw_add_cw hne
      rw [← arc_of_ne hne, ← arc_of_ne (Ne.symm hne), ← arc_self a] at hcw
      omega
  have hset : upTo R a (next R b) = insert (next R b) (upTo R a b) := by
    ext c
    simp only [upTo, Finset.mem_filter, Finset.mem_insert]
    constructor
    · rintro ⟨hc, hle⟩
      by_cases hcb : arc a c ≤ arc a b
      · exact Or.inr ⟨hc, hcb⟩
      · refine Or.inl (arc_inj_right (a := a) (Nat.le_antisymm hle ?_))
        have h1 := arc_add_arc (Nat.lt_of_not_le hcb)
        have h2 := arc_add_arc hlt
        have h3 := arc_next_le hc b
        omega
    · rintro (rfl | ⟨hc, hle⟩)
      · exact ⟨hn, Nat.le_refl _⟩
      · exact ⟨hc, by omega⟩
  rw [hset, Finset.card_insert_of_notMem]
  simp only [upTo, Finset.mem_filter, not_and, Nat.not_le]
  exact fun _ => hlt

/-- All members lie on the whole circle. -/
theorem card_upTo_self (a : α) : (upTo R a a).card = R.card := by
  rw [upTo, Finset.filter_true_of_mem]
  intro c _
  rw [arc_self]
  exact arc_le a c

/-- The first member after `a` is alone on its arc. -/
theorem card_upTo_first {a : α} (ha : a ∈ R) : (upTo R a (next R a)).card = 1 := by
  rw [Finset.card_eq_one]
  refine ⟨next R a, ?_⟩
  ext c
  simp only [upTo, Finset.mem_filter, Finset.mem_singleton]
  constructor
  · rintro ⟨hc, hle⟩
    exact arc_inj_right (Nat.le_antisymm hle (arc_next_le hc a))
  · rintro rfl
    exact ⟨next_mem ⟨a, ha⟩ a, Nat.le_refl _⟩

/-- An arc with all members that starts at one of them ends there. -/
theorem eq_of_card_upTo {a b : α} (ha : a ∈ R) (h : (upTo R a b).card = R.card) : b = a := by
  have hall := Finset.filter_card_eq h a ha
  rw [arc_self] at hall
  by_contra hne
  have := cw_lt a b
  rw [arc_of_ne (Ne.symm hne)] at hall
  omega

/-- After `k` steps of a round, `k` members have been passed. -/
theorem card_upTo_iterate {a : α} (ha : a ∈ R) {k : ℕ} (hk : k < R.card) :
    (upTo R a ((next R)^[k + 1] a)).card = k + 1 := by
  induction k with
  | zero => exact card_upTo_first ha
  | succ k ih =>
    have ih := ih (by omega)
    rw [Function.iterate_succ_apply', card_upTo_next ha, ih]
    intro h
    rw [h, card_upTo_self] at ih
    omega

/-- A round does not come back before it has passed every member. -/
theorem iterate_next_ne {a : α} (ha : a ∈ R) {k : ℕ} (hpos : 0 < k) (hk : k < R.card) :
    (next R)^[k] a ≠ a := by
  intro h
  obtain ⟨k, rfl⟩ : ∃ j, k = j + 1 := ⟨k - 1, by omega⟩
  have := card_upTo_iterate ha (show k < R.card by omega)
  rw [h, card_upTo_self] at this
  omega

/-- A round comes back when it has passed every member. -/
theorem iterate_next_card {a : α} (ha : a ∈ R) : (next R)^[R.card] a = a := by
  have hpos : 0 < R.card := Finset.card_pos.mpr ⟨a, ha⟩
  have h := card_upTo_iterate ha (show R.card - 1 < R.card by omega)
  rw [show R.card - 1 + 1 = R.card by omega] at h
  exact eq_of_card_upTo ha h

/-- A round passes every member. -/
theorem exists_iterate_next {a b : α} (ha : a ∈ R) (hb : b ∈ R) :
    ∃ k < R.card, (next R)^[k + 1] a = b := by
  classical
  have hinj : Set.InjOn (fun k => (next R)^[k + 1] a) (Finset.range R.card) := by
    intro j hj k hk h
    have hcard := congrArg (fun c => (upTo R a c).card) h
    simp only [card_upTo_iterate ha (Finset.mem_range.mp hj),
      card_upTo_iterate ha (Finset.mem_range.mp hk)] at hcard
    omega
  have hall : (Finset.range R.card).image (fun k => (next R)^[k + 1] a) = R := by
    refine Finset.eq_of_subset_of_card_le (fun c hc => ?_) ?_
    · obtain ⟨k, -, rfl⟩ := Finset.mem_image.mp hc
      exact iterate_next_mem ha _
    · rw [Finset.card_image_of_injOn hinj, Finset.card_range]
  rw [← hall] at hb
  obtain ⟨k, hk, rfl⟩ := Finset.mem_image.mp hb
  exact ⟨k, Finset.mem_range.mp hk, rfl⟩

end IdCircle
