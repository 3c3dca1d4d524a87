import Mathlib.Data.List.Induction
import Mathlib.Data.List.Infix
import TaceChat.Library.Census
import TaceChat.Model.Inbound

/-!
# The counter of the inbound connections

What `fetch_add` gives decides at once whether a connection is admitted, so a handler that has
counted its connection is one of the admitted ones or one of the rejected ones
(`HandlerPhase.isAdmitted`, `HandlerPhase.isRejected`). The counter is the number of both
(`InboundState.Exact`). A connection is admitted when the counter was below the maximum, and then
the admitted ones were too.
-/

set_option autoImplicit false

namespace TaceChat

namespace HandlerPhase

/-- The connection is admitted and its handler has not returned. -/
def isAdmitted : HandlerPhase → Bool
  | counted currentConnections => currentConnections.toNat < maxConnections
  | guarded => true
  | accepted | rejected | returned => false

/-- The connection is rejected and has not been subtracted. -/
def isRejected : HandlerPhase → Bool
  | counted currentConnections => maxConnections ≤ currentConnections.toNat
  | rejected => true
  | accepted | guarded | returned => false

/-- The connection has not been counted. -/
def isAccepted : HandlerPhase → Bool
  | accepted => true
  | counted _ | rejected | guarded | returned => false

/-- The handler has not returned. -/
def isOpen : HandlerPhase → Bool
  | returned => false
  | accepted | counted _ | rejected | guarded => true

end HandlerPhase

namespace InboundState

open HandlerPhase

/-- The open connections. -/
def openCount (s : InboundState) : ℕ := s.handlers.countP isOpen

/-- The number of handlers that hold a slot. -/
def admittedCount (s : InboundState) : ℕ := s.handlers.countP isAdmitted

/-- The number of handlers that were rejected. -/
def rejectedCount (s : InboundState) : ℕ := s.handlers.countP isRejected

/-- An open connection has not been counted, or is admitted, or is rejected. -/
theorem countP_isOpen (handlers : List HandlerPhase) : handlers.countP isOpen =
    handlers.countP isAccepted + handlers.countP isAdmitted + handlers.countP isRejected := by
  induction handlers with
  | nil => rfl
  | cons h handlers ih =>
    have hone : (if h.isOpen = true then 1 else 0) = (if h.isAccepted = true then 1 else 0) +
        (if h.isAdmitted = true then 1 else 0) + if h.isRejected = true then 1 else 0 := by
      cases h with
      | counted current =>
        by_cases hlt : current.toNat < maxConnections
        · simp [isOpen, isAccepted, isAdmitted, isRejected, hlt, Nat.not_le.mpr hlt]
        · simp [isOpen, isAccepted, isAdmitted, isRejected, hlt, Nat.not_lt.mp hlt]
      | _ => rfl
    simp only [List.countP_cons]
    omega

/-- The counter counts the admitted and the rejected connections, and the admitted ones are not more
than the maximum. -/
structure Exact (s : InboundState) : Prop where
  count : s.activeConnections.toNat = s.admittedCount + s.rejectedCount
  cap : s.admittedCount ≤ maxConnections

variable {s : InboundState} {i : ℕ} {h : HandlerPhase}

/-- There is no connection at the start. -/
theorem exact_init : Exact init := ⟨rfl, Nat.zero_le _⟩

/-- A handler that is subtracted next has been counted. -/
theorem Exact.pos (hs : s.Exact) (hmem : h ∈ s.handlers) (hnext : h = .guarded ∨ h = .rejected) :
    0 < s.activeConnections.toNat := by
  rw [hs.count]
  rcases hnext with rfl | rfl
  · exact Nat.add_pos_left (List.countP_pos_iff.mpr ⟨_, hmem, rfl⟩) _
  · exact Nat.add_pos_right _ (List.countP_pos_iff.mpr ⟨_, hmem, rfl⟩)

/-- A subtraction from a counter above 0 does not wrap. -/
theorem toNat_sub_one {counter : UInt32} (hpos : 0 < counter.toNat) :
    (counter - 1).toNat + 1 = counter.toNat := by
  have hle : (1 : UInt32) ≤ counter := UInt32.le_iff_toNat_le.mpr hpos
  rw [UInt32.toNat_sub_of_le _ _ hle, UInt32.toNat_one]
  omega

/-- An addition to a counter that is not full does not wrap. -/
theorem toNat_add_one {counter : UInt32} (hlt : counter.toNat + 1 < 2 ^ 32) :
    (counter + 1).toNat = counter.toNat + 1 := by
  rw [UInt32.toNat_add, UInt32.toNat_one, Nat.mod_eq_of_lt hlt]

/-- A handler moves, and the counter follows what the move does to the two counts. -/
theorem Exact.move (hs : s.Exact) (hi : s.handlers[i]? = some h) {counter : UInt32}
    {h' : HandlerPhase}
    (hcount : counter.toNat + ((if h.isAdmitted = true then 1 else 0) +
        if h.isRejected = true then 1 else 0) =
      s.activeConnections.toNat + ((if h'.isAdmitted = true then 1 else 0) +
        if h'.isRejected = true then 1 else 0))
    (hcap : h'.isAdmitted = true → h.isAdmitted = true ∨ s.admittedCount < maxConnections) :
    Exact ⟨counter, s.handlers.set i h'⟩ := by
  have hadmitted := countP_set_add hi isAdmitted h'
  have hrejected := countP_set_add hi isRejected h'
  have hold := hs.count
  have holdCap := hs.cap
  unfold admittedCount at hold holdCap hcap
  unfold rejectedCount at hold
  constructor
  · show counter.toNat = (s.handlers.set i h').countP isAdmitted +
      (s.handlers.set i h').countP isRejected
    omega
  · show (s.handlers.set i h').countP isAdmitted ≤ maxConnections
    by_cases hnew : h'.isAdmitted = true
    · rw [if_pos hnew] at hadmitted
      rcases hcap hnew with hsame | hroom
      · rw [if_pos hsame] at hadmitted
        omega
      · omega
    · rw [if_neg hnew] at hadmitted
      omega

/-- The first step of a handler: `fetch_add`. -/
theorem Exact.fetchAdd (hs : s.Exact) (hopen : s.openCount < 2 ^ 32)
    (hi : s.handlers[i]? = some .accepted) : (s.advance i .accepted).Exact := by
  have hcount := hs.count
  -- The connection is open and not counted yet, so the counter is not full.
  have hroom : s.activeConnections.toNat + 1 < 2 ^ 32 := by
    have hwaits : 0 < s.handlers.countP isAccepted :=
      List.countP_pos_iff.mpr ⟨_, List.mem_of_getElem? hi, rfl⟩
    have hsplit := countP_isOpen s.handlers
    unfold openCount at hopen
    unfold admittedCount rejectedCount at hcount
    omega
  refine hs.move hi ?_ ?_
  · rw [toNat_add_one hroom]
    by_cases hlt : s.activeConnections.toNat < maxConnections
    · simp [isAdmitted, isRejected, hlt, Nat.not_le.mpr hlt]
    · simp [isAdmitted, isRejected, hlt, Nat.not_lt.mp hlt]
  · intro hnew
    have hlt : s.activeConnections.toNat < maxConnections := of_decide_eq_true hnew
    exact Or.inr (by omega)

/-- The comparison decides what `fetch_add` has decided. -/
theorem Exact.compare (hs : s.Exact) {current : UInt32}
    (hi : s.handlers[i]? = some (.counted current)) : (s.advance i (.counted current)).Exact := by
  show Exact (if maxConnections ≤ current.toNat then
      { s with handlers := s.handlers.set i .rejected }
    else { s with handlers := s.handlers.set i .guarded })
  split
  · rename_i hfull
    refine hs.move hi ?_ fun hnew => absurd hnew (by decide)
    simp [isAdmitted, isRejected, hfull, Nat.not_lt.mpr hfull]
  · rename_i hfree
    have hlt := Nat.not_le.mp hfree
    refine hs.move hi ?_ fun _ => Or.inl (decide_eq_true hlt)
    simp [isAdmitted, isRejected, hfree, hlt]

/-- `fetch_sub`, after a rejection or when the guard is dropped. -/
theorem Exact.fetchSub (hs : s.Exact) (hi : s.handlers[i]? = some h)
    (hnext : h = .guarded ∨ h = .rejected) : (s.advance i h).Exact := by
  have hpos := hs.pos (List.mem_of_getElem? hi) hnext
  have hsub := toNat_sub_one hpos
  rcases hnext with rfl | rfl
  · exact hs.move hi hsub fun hnew => absurd hnew (by decide)
  · exact hs.move hi hsub fun hnew => absurd hnew (by decide)

/-- Every event keeps the counter exact, with fewer than `2 ^ 32` open connections. -/
theorem Exact.step (hs : s.Exact) (hopen : s.openCount < 2 ^ 32) (event : InboundEvent) :
    (s.step event).Exact := by
  cases event with
  | accept =>
    -- A new connection is in none of the two counts.
    have hadmitted : (s.step .accept).admittedCount = s.admittedCount := List.countP_append
    have hrejected : (s.step .accept).rejectedCount = s.rejectedCount := List.countP_append
    refine ⟨?_, ?_⟩
    · rw [hadmitted, hrejected]
      exact hs.count
    · rw [hadmitted]
      exact hs.cap
  | advance i =>
    cases hi : s.handlers[i]? with
    | none =>
      simp only [InboundState.step, hi]
      exact hs
    | some h =>
      simp only [InboundState.step, hi]
      cases h with
      | accepted => exact hs.fetchAdd hopen hi
      | counted current => exact hs.compare hi
      | rejected => exact hs.fetchSub hi (Or.inr rfl)
      | guarded => exact hs.fetchSub hi (Or.inl rfl)
      | returned => exact hs

/-- A run with fewer than `2 ^ 32` open connections at any time. -/
theorem exact_run (events : List InboundEvent)
    (hopen : ∀ before after, events = before ++ after → (run before).openCount < 2 ^ 32) :
    (run events).Exact := by
  induction events using List.reverseRecOn with
  | nil => exact exact_init
  | append_singleton events event ih =>
    have hlast : run (events ++ [event]) = (run events).step event := List.foldl_append
    rw [hlast]
    refine (ih fun before after heq => ?_).step (hopen events [event] rfl) event
    exact hopen before (after ++ [event]) (by rw [heq, List.append_assoc])

end InboundState

open InboundState

/-- In every state of every run with fewer than `2 ^ 32` connections open at once: the counter is
the number of the admitted handlers that have not returned and of the rejected ones that have not
subtracted yet, at most `MAX_CONNECTIONS` are admitted, nothing is subtracted from a counter of 0,
and when all handlers have returned, `shutdown` does not wait. -/
theorem active_connections_exact (events : List InboundEvent)
    (hopen : ∀ before after, events = before ++ after → (run before).openCount < 2 ^ 32) :
    (run events).activeConnections.toNat =
      (run events).admittedCount + (run events).rejectedCount ∧
    (run events).admittedCount ≤ maxConnections ∧
    (∀ h ∈ (run events).handlers, h = .guarded ∨ h = .rejected →
      0 < (run events).activeConnections) ∧
    ((∀ h ∈ (run events).handlers, h = .returned) →
      (run events).activeConnections = 0 ∧ (run events).shutdownWaits = false) := by
  have hs := exact_run events hopen
  refine ⟨hs.count, hs.cap, ?_, ?_⟩
  · intro h hmem hnext
    exact UInt32.lt_iff_toNat_lt.mpr (hs.pos hmem hnext)
  · intro hall
    -- Returned handlers are in none of the two counts.
    have hnone : ∀ p : HandlerPhase → Bool, p .returned = false →
        (run events).handlers.countP p = 0 := by
      intro p hp
      refine List.countP_eq_zero.mpr fun h hmem => ?_
      rw [hall h hmem, hp]
      exact Bool.false_ne_true
    have hzero : (run events).activeConnections = 0 := by
      rw [← UInt32.toNat_inj, hs.count]
      show (run events).handlers.countP _ + (run events).handlers.countP _ = 0
      rw [hnone _ rfl, hnone _ rfl]
    rw [shutdownWaits, hzero]
    exact ⟨rfl, rfl⟩

/-- `active_connections_exact` for a connection that is counted and admitted. -/
theorem active_connections_exact_one :
    (run [.accept, .advance 0, .advance 0]).admittedCount ≤ maxConnections := by
  have hinits : ∀ before ∈ [InboundEvent.accept, .advance 0, .advance 0].inits,
      (run before).openCount < 2 ^ 32 := by decide
  refine (active_connections_exact _ fun before after heq => hinits before ?_).2.1
  rw [List.mem_inits, heq]
  exact List.prefix_append before after

end TaceChat
