import TaceChat.Model.ChordNode

/-!
# The closest preceding finger

`closest_preceding_node` reads the finger table from its last entry to its first and takes the first
one that it finds in the interval (self, id] (`closestPrecedingNode_cases`). What it should find is
a finger strictly between the node and the id, with no other finger nearer to the id
(`ChordNode.Precedes`). The interval test lets the id itself through, and nothing sorts the table,
so this depends on the table: `closestPrecedingNode_precedes_iff` says exactly how.
-/

set_option autoImplicit false

namespace TaceChat

open IdCircle

/-- In a list whose part after `a` has no match, every match stands at `a` or before it. -/
theorem mem_of_last_match {α : Type} {p : α → Prop} {a b : α} {before after before' after' : List α}
    (hlast : ∀ c ∈ after, ¬p c) (hb : p b) (heq : before ++ a :: after = before' ++ b :: after') :
    a ∈ b :: after' := by
  rcases List.append_eq_append_iff.mp heq with ⟨mid, -, hmid⟩ | ⟨mid, -, hmid⟩
  · cases mid with
    | nil =>
      obtain ⟨rfl, -⟩ := List.cons.inj hmid
      exact List.mem_cons_self
    | cons c mid =>
      -- Here `b` would stand after `a`.
      obtain ⟨-, rfl⟩ := List.cons.inj hmid
      exact absurd hb (hlast b (List.mem_append_right _ List.mem_cons_self))
  · rw [hmid]
    exact List.mem_append_right _ List.mem_cons_self

namespace ChordNode

/-- What the scan of the finger table finds: the node itself when no entry lies in (self, id], and
otherwise the last entry that does. -/
theorem closestPrecedingNode_cases (self : ChordNode) (id : NodeId) :
    (self.closestPrecedingNode id = self.info ∧
      ∀ f ∈ self.fingerTable.take M, ¬InArc f.id self.info.id id) ∨
    ∃ before f after, self.fingerTable.take M = before ++ f :: after ∧
      InArc f.id self.info.id id ∧ (∀ g ∈ after, ¬InArc g.id self.info.id id) ∧
      self.closestPrecedingNode id = f := by
  unfold closestPrecedingNode
  cases hfind : (self.fingerTable.take M).reverse.find? fun finger =>
    isBetween finger.id self.info.id id with
  | none =>
    refine Or.inl ⟨rfl, ?_⟩
    intro f hf
    rw [← isBetween_iff]
    exact List.find?_eq_none.mp hfind f (List.mem_reverse.mpr hf)
  | some f =>
    -- What stands before the match in the reversed table stands after it in the table.
    obtain ⟨hf, front, back, hsplit, hfront⟩ := List.find?_eq_some_iff_append.mp hfind
    refine Or.inr ⟨back.reverse, f, front.reverse, ?_, (isBetween_iff _ _ _).mp hf, ?_, rfl⟩
    · rw [← List.reverse_inj, hsplit]
      simp
    · intro g hg
      have hnot := hfront g (List.mem_reverse.mp hg)
      rw [← isBetween_iff]
      simpa using hnot

/-- The result is the node itself or one of its fingers. -/
theorem closestPrecedingNode_mem (self : ChordNode) (id : NodeId) :
    self.closestPrecedingNode id = self.info ∨
      self.closestPrecedingNode id ∈ self.fingerTable := by
  rcases self.closestPrecedingNode_cases id with ⟨hself, -⟩ | ⟨before, f, after, htable, -, -, hf⟩
  · exact Or.inl hself
  · refine Or.inr (List.mem_of_mem_take (i := M) ?_)
    rw [htable, hf]
    exact List.mem_append_right _ List.mem_cons_self

/-- The result is the node itself or lies in (self, id]. -/
theorem closestPrecedingNode_inArc (self : ChordNode) (id : NodeId) :
    self.closestPrecedingNode id = self.info ∨
      InArc (self.closestPrecedingNode id).id self.info.id id := by
  rcases self.closestPrecedingNode_cases id with ⟨hself, -⟩ | ⟨_, _, _, -, hin, -, hf⟩
  · exact Or.inl hself
  · refine Or.inr ?_
    rw [hf]
    exact hin

/-- `r` is the node itself or a finger strictly between the node and the id, and no finger lies
strictly between `r` and the id. -/
def Precedes (self : ChordNode) (r : NodeInfo) (id : NodeId) : Prop :=
  (r = self.info ∨ r ∈ self.fingerTable ∧ Inside r.id self.info.id id) ∧
    ∀ f ∈ self.fingerTable, ¬Inside f.id r.id id

/-- At or after every finger in (self, id] there stands a finger strictly between the node and the
id that no other finger is nearer to the id than. -/
def FingersLeadTo (self : ChordNode) (id : NodeId) : Prop :=
  ∀ before f after, self.fingerTable = before ++ f :: after → InArc f.id self.info.id id →
    ∃ g ∈ f :: after, Inside g.id self.info.id id ∧ ∀ h ∈ self.fingerTable, ¬Inside h.id g.id id

/-- In a finger table of at most `M` entries, `closest_preceding_node` finds the closest preceding
finger exactly when such fingers stand late enough. -/
theorem closestPrecedingNode_precedes_iff (self : ChordNode) (id : NodeId)
    (hlength : self.fingerTable.length ≤ M) :
    self.Precedes (self.closestPrecedingNode id) id ↔ self.FingersLeadTo id := by
  have hscan := self.closestPrecedingNode_cases id
  rw [List.take_of_length_le hlength] at hscan
  rcases hscan with ⟨hself, hnone⟩ | ⟨before, f, after, htable, hin, hlast, hf⟩
  · -- No finger lies in the interval, so both sides hold.
    rw [hself]
    refine iff_of_true ⟨Or.inl rfl, ?_⟩ ?_
    · intro f hf hinside
      exact hnone f hf hinside.1
    · intro before f after htable hin
      refine absurd hin (hnone f ?_)
      rw [htable]
      exact List.mem_append_right _ List.mem_cons_self
  · rw [hf]
    constructor
    · rintro ⟨hself | ⟨-, hinside⟩, hclosest⟩
      · rw [hself] at hin
        exact absurd hin not_inArc_start
      · intro before' g after' htable' hg
        refine ⟨f, mem_of_last_match hlast hg (htable.symm.trans htable'), hinside, hclosest⟩
    · intro hlead
      obtain ⟨g, hg, hinside, hclosest⟩ := hlead before f after htable hin
      -- No finger after `f` lies in the interval, so the one that leads is `f`.
      rcases List.mem_cons.mp hg with rfl | hg
      · refine ⟨Or.inr ⟨?_, hinside⟩, hclosest⟩
        rw [htable]
        exact List.mem_append_right _ List.mem_cons_self
      · exact absurd hinside.1 (hlast g hg)

/-- The info of a node 20. -/
def twenty : NodeInfo := ⟨biguintToNodeId 20, "10.0.0.2:8001", "10.0.0.2:80"⟩

/-- A node 10, all of whose fingers are the node 20. -/
def tenToTwenty : ChordNode :=
  { new (fun _ => biguintToNodeId 10) "10.0.0.1:8001" "10.0.0.1:80" with
    fingerTable := List.replicate M twenty }

/-- The scan finds the finger 20 for the id 25. -/
theorem closestPrecedingNode_precedes_iff_twenty :
    tenToTwenty.Precedes (tenToTwenty.closestPrecedingNode (biguintToNodeId 25))
      (biguintToNodeId 25) := by
  refine (closestPrecedingNode_precedes_iff tenToTwenty _ ?_).mpr ?_
  · exact Nat.le_of_eq List.length_replicate
  · intro before f after htable _
    have htwenty : ∀ g ∈ tenToTwenty.fingerTable, g = twenty := fun _ hg =>
      List.eq_of_mem_replicate hg
    have hf : f = twenty := by
      refine htwenty f ?_
      rw [htable]
      exact List.mem_append_right _ List.mem_cons_self
    refine ⟨f, List.mem_cons_self, ?_, ?_⟩
    · rw [hf]
      exact ⟨(isBetween_iff _ _ _).mp (by decide), by decide⟩
    · intro g hg hinside
      rw [hf, htwenty g hg] at hinside
      exact not_inArc_start hinside.1

/-- For the id 20 the scan gives the node 20 itself, which does not precede it. -/
theorem closestPrecedingNode_not_precedes :
    ¬∀ (self : ChordNode) (id : NodeId), self.fingerTable.length = M → id ≠ self.info.id →
      self.Precedes (self.closestPrecedingNode id) id := by
  intro h
  have hfound : tenToTwenty.closestPrecedingNode (biguintToNodeId 20) = twenty := by
    decide +kernel
  obtain ⟨hself | ⟨-, -, hne⟩, -⟩ := h tenToTwenty (biguintToNodeId 20) List.length_replicate
    (by decide)
  · rw [hfound] at hself
    exact absurd hself (by decide)
  · rw [hfound] at hne
    exact hne rfl

end ChordNode

end TaceChat
