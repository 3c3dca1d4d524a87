import Mathlib.Data.List.Forall2
import Mathlib.Data.List.Sort

/-!
# Lists

Notions about lists that proofs about programs need beyond the library: lists that are related entry
by entry (`List.Forall₂`) under a change of one entry, a modification of one entry under a map, and
what an insertion sort by one order leaves of another order (`insertionSort_stable`).
-/

set_option autoImplicit false

namespace List

variable {α β : Type}

/-! ### Related lists -/

/-- A list that is related to another one stays so when an entry is replaced. -/
theorem Forall₂.set {R R' : α → β → Prop} {l : List α} {l' : List β} {b b' : β}
    (h : Forall₂ R l l') (hmono : ∀ x y, R x y → R' x y) (hset : ∀ x, R x b → R' x b') :
    ∀ {i : ℕ}, l'[i]? = some b → Forall₂ R' l (l'.set i b') := by
  induction h with
  | nil =>
    intro i hi
    cases hi
  | cons hxy hrest ih =>
    intro i hi
    cases i with
    | zero =>
      cases hi
      exact .cons (hset _ hxy) (hrest.imp hmono)
    | succ i => exact .cons (hmono _ _ hxy) (ih hi)

/-- Every entry of the second list is related to one of the first. -/
theorem Forall₂.exists_left {R : α → β → Prop} {l : List α} {l' : List β} (h : Forall₂ R l l') :
    ∀ {b : β}, b ∈ l' → ∃ a ∈ l, R a b := by
  induction h with
  | nil =>
    intro b hb
    cases hb
  | @cons a b l l' hab hrest ih =>
    intro b' hb'
    rcases mem_cons.mp hb' with rfl | hb'
    · exact ⟨a, mem_cons_self, hab⟩
    · obtain ⟨a', ha', hab'⟩ := ih hb'
      exact ⟨a', mem_cons_of_mem a ha', hab'⟩

/-! ### A modified entry -/

/-- A modification is not seen by a function that does not see it in the entry. -/
theorem map_modify_eq {f : α → α} {g : α → β} (hsame : ∀ a, g (f a) = g a) (l : List α) (i : ℕ) :
    (l.modify i f).map g = l.map g := by
  induction l generalizing i with
  | nil => simp
  | cons a l ih =>
    cases i with
    | zero => simp [hsame]
    | succ i => simp [ih]

/-! ### Stable sorting -/

section Stable

variable (r : α → α → Prop) [DecidableRel r] {s : α → α → Prop}

/-- `a` comes before `b` when lists in the order `s` are sorted by `r`. -/
def SortedBefore (s : α → α → Prop) (a b : α) : Prop := r a b ∧ (r b a → s a b)

variable {r}

/-- An entry that `s` puts before all of a list is inserted in front of those that `r` does not put
before it. -/
theorem orderedInsert_sortedBefore (htotal : ∀ a b, r a b ∨ r b a)
    (htrans : ∀ a b c, r a b → r b c → r a c) (a : α) {l : List α}
    (hl : l.Pairwise (SortedBefore r s)) (ha : ∀ b ∈ l, s a b) :
    (l.orderedInsert r a).Pairwise (SortedBefore r s) := by
  induction l with
  | nil => exact pairwise_singleton _ a
  | cons b l ih =>
    obtain ⟨hb, hl⟩ := pairwise_cons.mp hl
    by_cases hab : r a b
    · rw [orderedInsert_cons_of_le r l hab]
      refine pairwise_cons.mpr ⟨?_, pairwise_cons.mpr ⟨hb, hl⟩⟩
      intro c hc
      refine ⟨?_, fun _ => ha c hc⟩
      rcases mem_cons.mp hc with rfl | hc
      · exact hab
      · exact htrans a b c hab (hb c hc).1
    · rw [orderedInsert_of_not_le r l hab]
      refine pairwise_cons.mpr ⟨?_, ih hl fun c hc => ha c (mem_cons_of_mem b hc)⟩
      intro c hc
      rcases (mem_orderedInsert r).mp hc with rfl | hc
      · exact ⟨(htotal b c).resolve_right hab, fun hcb => absurd hcb hab⟩
      · exact hb c hc

/-- Sorting by `r` keeps the order `s` between entries that `r` does not tell apart. -/
theorem insertionSort_stable (htotal : ∀ a b, r a b ∨ r b a)
    (htrans : ∀ a b c, r a b → r b c → r a c) {l : List α} (hl : l.Pairwise s) :
    (l.insertionSort r).Pairwise (SortedBefore r s) := by
  induction l with
  | nil => exact .nil
  | cons a l ih =>
    obtain ⟨ha, hl⟩ := pairwise_cons.mp hl
    rw [insertionSort_cons]
    exact orderedInsert_sortedBefore htotal htrans a (ih hl) fun b hb =>
      ha b ((mem_insertionSort r).mp hb)

end Stable

end List
