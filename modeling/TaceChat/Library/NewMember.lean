import TaceChat.Library.Clockwise

/-!
# A new member of a circle

For a point `d` outside a set `R`: who are its neighbours in `R`, and who are the neighbours of
each member once `d` is inserted. `arc_prev_lt` says that the way from `d` to a member that is
not the next one leads past the member before it.
-/

set_option autoImplicit false

namespace IdCircle

variable {α : Type} [IdCircle α]

/-- A point at a smaller distance from the end lies on the arc. -/
theorem arc_add_arc_left {a b c : α} (h : arc b c < arc a c) : arc a b + arc b c = arc a c := by
  have hab : a ≠ b := by
    rintro rfl
    omega
  have hlt : arc a b < arc a c := by
    rcases Nat.lt_or_ge (arc a b) (arc a c) with hlt | hge
    · exact hlt
    · rcases Nat.eq_or_lt_of_le hge with heq | hgt
      · -- `b` would be `c`, and its arc the whole circle.
        have hbc : c = b := arc_inj_right heq
        rw [hbc, arc_self] at h
        have := arc_le a b
        omega
      · have hsum := arc_add_arc hgt
        have hb := arc_of_ne hab
        have hlt := cw_lt a b
        have hround : arc b c + arc c b ≥ size α := by
          by_cases hbc : b = c
          · have := arc_self b
            rw [← hbc]
            omega
          · rw [arc_of_ne hbc, arc_of_ne (Ne.symm hbc), cw_add_cw hbc]
        omega
  exact arc_add_arc hlt

variable {R : Finset α} {d : α}

/-- A point outside `R` is owned by the member after it. -/
theorem owner_eq_next (hd : d ∉ R) (hR : R.Nonempty) : owner R d = next R d := by
  refine owner_eq (next_mem hR d) fun c hc => ?_
  have hother : ∀ b ∈ R, arc d b = cw d b := fun b hb => arc_of_ne fun h => hd (h ▸ hb)
  have h := arc_next_le hc d
  rwa [hother _ (next_mem hR d), hother c hc] at h

/-- The only member that `d` comes right after is the one before it. -/
theorem arc_lt_next_iff (hd : d ∉ R) {a : α} (ha : a ∈ R) :
    arc a d < arc a (next R a) ↔ a = prev R d := by
  have hp : prev R d ∈ R := prev_mem ⟨a, ha⟩ d
  have hn : next R a ∈ R := next_mem ⟨a, ha⟩ a
  constructor
  · intro h
    by_contra hne
    have hlt : arc (prev R d) d < arc a d :=
      Nat.lt_of_le_of_ne (arc_prev_le ha d) fun heq => hne (arc_inj_left heq).symm
    have hsum := arc_add_arc_left hlt
    have hle := arc_next_le hp a
    have hpos := arc_pos (prev R d) d
    omega
  · intro h
    by_contra hge
    have hlt : arc a (next R a) < arc a d :=
      Nat.lt_of_le_of_ne (Nat.le_of_not_lt hge) fun heq => hd (arc_inj_right heq ▸ hn)
    have hsum := arc_add_arc hlt
    have hle := arc_prev_le hn d
    have hpos := arc_pos a (next R a)
    rw [← h] at hle
    omega

/-- The neighbours of `d` in `R` are neighbours of each other. -/
theorem next_prev_of_notMem (hd : d ∉ R) (hR : R.Nonempty) : next R (prev R d) = next R d := by
  have hp : prev R d ∈ R := prev_mem hR d
  have hgap := (arc_lt_next_iff hd hp).mpr rfl
  have hsum := arc_add_arc hgap
  refine (next_eq (next_mem hR _) fun c hc => ?_).symm
  have hle := arc_next_le hc (prev R d)
  have hsum' := arc_add_arc (Nat.lt_of_lt_of_le hgap hle)
  omega

/-- The neighbours of an id that is no member are neighbours of each other. -/
theorem prev_next_of_notMem (hd : d ∉ R) (hR : R.Nonempty) : prev R (next R d) = prev R d := by
  rw [← next_prev_of_notMem hd hR]
  exact prev_next (prev_mem hR d)

/-- `d` lies on the arc to a member from the one before it just when that member is the next
one. -/
theorem inArc_prev_iff (hd : d ∉ R) (hcard : 1 < R.card) {s : α} (hs : s ∈ R) :
    InArc d (prev R s) s ↔ s = next R d := by
  have hp : prev R s ∈ R := prev_mem ⟨s, hs⟩ s
  have hps : next R (prev R s) = s := next_prev hs
  have hne : prev R s ≠ next R (prev R s) := by
    obtain ⟨c, hc, hcp⟩ := Finset.exists_mem_ne hcard (prev R s)
    exact Ne.symm (next_ne hc hcp)
  have howner : owner R d = next R d := owner_eq_next hd ⟨s, hs⟩
  constructor
  · intro h
    rw [← howner, owner_eq_of_inArc hp (by rwa [hps]), hps]
  · intro h
    have := inArc_of_owner_eq hp hne (by rw [howner, hps, h])
    rwa [hps] at this

/-- The only member that has `d` on the arc to its next member is the one before `d`. -/
theorem inArc_next_iff (hd : d ∉ R) (hcard : 1 < R.card) {a : α} (ha : a ∈ R) :
    InArc d a (next R a) ↔ a = prev R d := by
  have h := inArc_prev_iff hd hcard (next_mem ⟨a, ha⟩ a)
  rw [prev_next ha] at h
  rw [h]
  constructor
  · intro heq
    rw [← prev_next ha, heq, prev_next_of_notMem hd ⟨a, ha⟩]
  · rintro rfl
    exact next_prev_of_notMem hd ⟨_, ha⟩

/-- On the way from a member to `d` the member before `d` comes last. -/
theorem cw_add_cw_prev (hd : d ∉ R) {a : α} (ha : a ∈ R) :
    cw a (prev R d) + cw (prev R d) d = cw a d := by
  have hp : prev R d ∈ R := prev_mem ⟨a, ha⟩ d
  have hle := arc_prev_le ha d
  have hpd : prev R d ≠ d := fun heq => hd (heq ▸ hp)
  have had : a ≠ d := fun heq => hd (heq ▸ ha)
  rw [arc_of_ne hpd, arc_of_ne had] at hle
  have hlt := cw_lt a (prev R d)
  rcases cw_triangle a (prev R d) d with h | h <;> omega

/-- The members on the way from a member to `d` are those on the way to the member before `d`. -/
theorem inArc_iff_inArc_prev (hd : d ∉ R) {a c : α} (ha : a ∈ R) (hc : c ∈ R) :
    InArc c a d ↔ InArc c a (prev R d) := by
  have hsum := cw_add_cw_prev hd ha
  have hsum' := cw_add_cw_prev hd hc
  constructor
  · intro h
    obtain ⟨-, hrest⟩ := inArc_iff.mp h
    exact ⟨h.1, by omega⟩
  · intro h
    have hle := h.2
    exact ⟨h.1, by omega⟩

/-- The way from `d` to a member that is not the next one leads past the member before it. -/
theorem arc_prev_lt {s : α} (hs : s ∈ R) (hne : s ≠ next R d) : arc d (prev R s) < arc d s := by
  have hnext : arc d (next R d) < arc d s :=
    Nat.lt_of_le_of_ne (arc_next_le hs d) fun h => hne (arc_inj_right h).symm
  have hsum := arc_add_arc hnext
  have hle := arc_prev_le (next_mem ⟨s, hs⟩ d) s
  have hpos := arc_pos d (next R d)
  have hlt : arc (prev R s) s < arc d s := by omega
  have hsum' := arc_add_arc_left hlt
  have hpos' := arc_pos (prev R s) s
  omega

/-- The arcs before and after `d` are disjoint. -/
theorem not_inArc_next (hd : d ∉ R) (hR : R.Nonempty) {k : α} (h : InArc k (prev R d) d) :
    ¬ InArc k d (next R d) := by
  have hp : prev R d ∈ R := prev_mem hR d
  have hpd : prev R d ≠ d := fun heq => hd (heq ▸ hp)
  have hdn : d ≠ next R d := fun heq => hd (heq ▸ next_mem hR d)
  intro hin
  rcases eq_or_ne d k with rfl | hdk
  · exact not_inArc_start hin
  · have hle := (inArc_iff_arc_le hpd).mp h
    have hle' := (inArc_iff_arc_le hdn).mp hin
    have hlt : arc (prev R d) k < arc (prev R d) d :=
      Nat.lt_of_le_of_ne hle fun heq => hdk (arc_inj_right heq).symm
    have hsum := arc_add_arc hlt
    have hsum' := arc_add_arc ((arc_lt_next_iff hd hp).mpr rfl)
    rw [next_prev_of_notMem hd hR] at hsum'
    -- Together the two arcs would go round the circle and more.
    have hround := cw_add_cw hdk
    rw [← arc_of_ne hdk, ← arc_of_ne (Ne.symm hdk)] at hround
    have hsize := arc_le (prev R d) (next R d)
    have hpos := arc_pos (prev R d) k
    omega

/-! ### The neighbours after the insertion -/

variable [DecidableEq α]

/-- The new member is followed by what came after its id. -/
theorem next_insert_new (hR : R.Nonempty) : next (insert d R) d = next R d := by
  refine next_eq (Finset.mem_insert_of_mem (next_mem hR d)) fun c hc => ?_
  rcases Finset.mem_insert.mp hc with rfl | hc
  · rw [arc_self]
    exact arc_le _ _
  · exact arc_next_le hc d

/-- The member before the new one is followed by it. -/
theorem next_insert_prev (hd : d ∉ R) (hR : R.Nonempty) : next (insert d R) (prev R d) = d := by
  have hgap := (arc_lt_next_iff hd (prev_mem hR d)).mpr rfl
  refine next_eq (Finset.mem_insert_self d R) fun c hc => ?_
  rcases Finset.mem_insert.mp hc with rfl | hc
  · exact Nat.le_refl _
  · exact Nat.le_trans (Nat.le_of_lt hgap) (arc_next_le hc _)

/-- The other members keep what follows them. -/
theorem next_insert_of_ne (hd : d ∉ R) {a : α} (ha : a ∈ R) (hne : a ≠ prev R d) :
    next (insert d R) a = next R a := by
  have hgap := mt (arc_lt_next_iff hd ha).mp hne
  refine next_eq (Finset.mem_insert_of_mem (next_mem ⟨a, ha⟩ a)) fun c hc => ?_
  rcases Finset.mem_insert.mp hc with rfl | hc
  · exact Nat.le_of_not_lt hgap
  · exact arc_next_le hc a

/-- The new member is preceded by what came before its id. -/
theorem prev_insert_new (hd : d ∉ R) (hR : R.Nonempty) : prev (insert d R) d = prev R d := by
  have h := prev_next (Finset.mem_insert_of_mem (b := d) (prev_mem hR d))
  rwa [next_insert_prev hd hR] at h

/-- The member after the new one is preceded by it. -/
theorem prev_insert_next (hR : R.Nonempty) : prev (insert d R) (next R d) = d := by
  have h := prev_next (Finset.mem_insert_self d R)
  rwa [next_insert_new hR] at h

/-- The other members keep what precedes them. -/
theorem prev_insert_of_ne (hd : d ∉ R) {b : α} (hb : b ∈ R) (hne : b ≠ next R d) :
    prev (insert d R) b = prev R b := by
  have hp : prev R b ∈ R := prev_mem ⟨b, hb⟩ b
  have hpd : prev R b ≠ prev R d := by
    intro h
    rw [← next_prev hb, h, next_prev_of_notMem hd ⟨b, hb⟩] at hne
    exact hne rfl
  have h := prev_next (Finset.mem_insert_of_mem (b := d) hp)
  rwa [next_insert_of_ne hd hp hpd, next_prev hb] at h

end IdCircle
