import Mathlib.Data.List.Induction
import TaceChat.Library.Census
import TaceChat.Model.Limiter

/-!
# The slots of the connection limiter

A call is charged to its address from the increment to the decrement, and for good when its release
is lost (`CallPhase.charged`). `LimiterState.Counted` is the invariant of every run: the recorded
count of an address is the number of the calls that are charged to it, it never exceeds the
maximum, and the mutex has one holder at most. The cap on live guards follows (`limiter_cap`), and
so does when an address gets all its slots back (`slots_released_iff`).
-/

set_option autoImplicit false

namespace TaceChat

namespace ConnectionLimiter

variable {self : ConnectionLimiter} {address : String} {now : ℕ} {st : ConnectionStats}

/-! ### The methods of the limiter -/

/-- The entries that a cleanup keeps. -/
theorem lookup_cleanupOldEntries : (self.cleanupOldEntries now).stats.lookup address = some st ↔
    self.stats.lookup address = some st ∧
      (0 < st.activeCount ∨ now - st.lastCleanup < self.cleanupInterval * 2) := by
  have hmem : ∀ {m : AList fun _ : String => ConnectionStats},
      m.lookup address = some st ↔ ⟨address, st⟩ ∈ m.entries := by
    intro m
    exact AList.mem_lookup_iff
  rw [hmem, hmem]
  simp [cleanupOldEntries]

/-- A cleanup removes only entries without a connection. -/
@[simp] theorem activeCount_cleanupOldEntries :
    (self.cleanupOldEntries now).activeCount address = self.activeCount address := by
  unfold activeCount
  cases hafter : (self.cleanupOldEntries now).stats.lookup address with
  | some st =>
    rw [(lookup_cleanupOldEntries.mp hafter).1]
  | none =>
    cases hbefore : self.stats.lookup address with
    | none => rfl
    | some st =>
      -- The entry is gone, so it had no connection.
      have hgone : ¬(self.cleanupOldEntries now).stats.lookup address = some st := by
        simp [hafter]
      rw [lookup_cleanupOldEntries] at hgone
      simp only [hbefore, true_and, not_or, Nat.pos_iff_ne_zero, not_not] at hgone
      simp [hgone.1]

/-- A cleanup removes only entries that count 0. -/
@[simp] theorem activeCount_cleanupPeriodically :
    (self.cleanupPeriodically now).activeCount address = self.activeCount address := by
  unfold cleanupPeriodically
  split
  · exact activeCount_cleanupOldEntries
  · rfl

/-- A cleanup keeps the maximum. -/
@[simp] theorem maxConnections_cleanupPeriodically :
    (self.cleanupPeriodically now).maxConnectionsPerHost = self.maxConnectionsPerHost := by
  unfold cleanupPeriodically
  split
  · rfl
  · rfl

/-- The count of an address with an entry. -/
theorem activeCount_of_lookup (h : self.stats.lookup address = some st) :
    self.activeCount address = st.activeCount := by
  simp [activeCount, h]

/-- The count of an address without one. -/
theorem activeCount_of_none (h : self.stats.lookup address = none) :
    self.activeCount address = 0 := by
  simp [activeCount, h]

/-- The counts after an entry of an address was written. -/
theorem activeCount_insert (b : String) :
    ({ self with stats := self.stats.insert address st } : ConnectionLimiter).activeCount b =
      if b = address then st.activeCount else self.activeCount b := by
  unfold activeCount
  by_cases hb : b = address
  · subst hb
    simp
  · simp [hb, AList.lookup_insert_ne]

/-- A call may connect when the count is below the maximum. -/
theorem canConnect_fst : (self.canConnect address now).1 = true ↔
    self.activeCount address < self.maxConnectionsPerHost := by
  unfold canConnect
  have hcount : (self.cleanupPeriodically now).activeCount address = self.activeCount address :=
    activeCount_cleanupPeriodically
  rw [← hcount]
  cases h : (self.cleanupPeriodically now).stats.lookup address with
  | some st => simp [h, activeCount_of_lookup h]
  | none => simp [h, activeCount_of_none h]

/-- The check changes no count. -/
@[simp] theorem activeCount_canConnect (b : String) :
    (self.canConnect address now).2.activeCount b = self.activeCount b := by
  unfold canConnect
  cases h : (self.cleanupPeriodically now).stats.lookup address with
  | some st => simp [h]
  | none =>
    simp only [h]
    rw [activeCount_insert, activeCount_cleanupPeriodically]
    by_cases hb : b = address
    · subst hb
      have hnone := activeCount_of_none h
      rw [activeCount_cleanupPeriodically] at hnone
      simp [hnone]
    · simp [hb]

/-- The question keeps the maximum. -/
@[simp] theorem maxConnections_canConnect :
    (self.canConnect address now).2.maxConnectionsPerHost = self.maxConnectionsPerHost := by
  unfold canConnect
  cases h : (self.cleanupPeriodically now).stats.lookup address with
  | some st => simp [h]
  | none => simp [h]

/-- After the check the address has an entry. -/
theorem lookup_canConnect : ((self.canConnect address now).2.stats.lookup address).isSome := by
  unfold canConnect
  cases h : (self.cleanupPeriodically now).stats.lookup address with
  | some st => simp [h]
  | none => simp [h]

/-- An address with an entry is counted once more. -/
theorem activeCount_incrementCount (h : (self.stats.lookup address).isSome) (b : String) :
    (self.incrementCount address).activeCount b =
      if b = address then self.activeCount b + 1 else self.activeCount b := by
  obtain ⟨st, hst⟩ := Option.isSome_iff_exists.mp h
  simp only [incrementCount, hst]
  rw [activeCount_insert]
  by_cases hb : b = address
  · subst hb
    simp [activeCount_of_lookup hst]
  · simp [hb]

/-- The count of the address goes down, and the other counts stay. -/
@[simp] theorem activeCount_decrementCount (b : String) :
    (self.decrementCount address).activeCount b =
      if b = address then self.activeCount b - 1 else self.activeCount b := by
  unfold decrementCount
  cases hst : self.stats.lookup address with
  | some st =>
    simp only
    rw [activeCount_insert]
    by_cases hb : b = address
    · subst hb
      simp [activeCount_of_lookup hst]
    · simp [hb]
  | none =>
    by_cases hb : b = address
    · subst hb
      simp [activeCount_of_none hst]
    · simp [hb]

/-- An increment keeps the maximum. -/
@[simp] theorem maxConnections_incrementCount :
    (self.incrementCount address).maxConnectionsPerHost = self.maxConnectionsPerHost := by
  unfold incrementCount
  split
  · rfl
  · rfl

/-- A decrement keeps the maximum. -/
@[simp] theorem maxConnections_decrementCount :
    (self.decrementCount address).maxConnectionsPerHost = self.maxConnectionsPerHost := by
  unfold decrementCount
  split
  · rfl
  · rfl

end ConnectionLimiter

/-! ### The invariant -/

namespace CallPhase

/-- The call, or its release task, has the mutex. -/
def holdsLock : CallPhase → Bool
  | locked | admitted | counted | decrementing => true
  | waiting | rejected | connected | releasing | finished | lost => false

/-- The call has been counted and not been released. -/
def charged : CallPhase → Bool
  | counted | connected | releasing | decrementing | lost => true
  | waiting | locked | admitted | rejected | finished => false

/-- The call or its release task has not ended. -/
def inProgress : CallPhase → Bool
  | waiting | locked | admitted | counted | connected | releasing | decrementing => true
  | rejected | finished | lost => false

end CallPhase

namespace LimiterState

/-- The calls that are charged to an address. -/
def chargedTo (s : LimiterState) (address : String) : ℕ :=
  s.calls.countP fun c => c.address = address && c.phase.charged

/-- The calls to an address that hold a guard. -/
def liveGuards (s : LimiterState) (address : String) : ℕ :=
  s.calls.countP fun c => c.address = address && c.phase = .connected

/-- The invariant of all runs: the limiter counts the calls that are charged. -/
structure Counted (s : LimiterState) : Prop where
  /-- The maximum never changes. -/
  maximum : s.limiter.maxConnectionsPerHost = maxConnectionsPerHost
  /-- The mutex has one holder when it is taken, and none otherwise. -/
  holder : s.calls.countP (fun c => c.phase.holdsLock) = if s.isLocked then 1 else 0
  /-- The recorded count of an address is the number of the calls that are charged to it. -/
  count : ∀ address, s.limiter.activeCount address = s.chargedTo address
  bound : ∀ address, s.limiter.activeCount address ≤ maxConnectionsPerHost
  /-- A call that is admitted has an entry and room in it. -/
  admitted : ∀ c ∈ s.calls, c.phase = .admitted →
    (s.limiter.stats.lookup c.address).isSome ∧
      s.limiter.activeCount c.address < maxConnectionsPerHost

variable {s s' : LimiterState} {i : ℕ} {c c' : OutboundCall} {before after : List OutboundCall}
  {address : String}

/-- When a call has the mutex, the mutex is taken and no other call has it. -/
theorem Counted.others (h : Counted s) (hcalls : s.calls = before ++ c :: after)
    (hholds : c.phase.holdsLock = true) :
    s.isLocked = true ∧ ∀ other ∈ before ++ after, other.phase.holdsLock = false := by
  have hholder := h.holder
  rw [hcalls, List.countP_append, List.countP_cons, if_pos hholds] at hholder
  -- A free mutex has no holder, and the call is one.
  have hlocked : s.isLocked = true := by
    by_contra hfree
    rw [if_neg hfree] at hholder
    omega
  rw [if_pos hlocked] at hholder
  -- The one holder that is counted is the call itself.
  have hnone : (before ++ after).countP (fun c => c.phase.holdsLock) = 0 := by
    rw [List.countP_append]
    omega
  refine ⟨hlocked, ?_⟩
  intro other hother
  simpa using List.countP_eq_zero.mp hnone other hother

/-- A call moves and the invariant is kept, when the limiter and the mutex follow its move. -/
theorem Counted.move (h : Counted s) (hcalls : s.calls = before ++ c :: after)
    (hcalls' : s'.calls = before ++ c' :: after) (haddress : c'.address = c.address)
    (hmaximum : s'.limiter.maxConnectionsPerHost = s.limiter.maxConnectionsPerHost)
    (hlock : (if s'.isLocked then 1 else 0) + (if c.phase.holdsLock then 1 else 0) =
      (if s.isLocked then 1 else 0) + (if c'.phase.holdsLock then 1 else 0))
    (hcount : ∀ b, s'.limiter.activeCount b +
        (if c.address = b ∧ c.phase.charged = true then 1 else 0) =
      s.limiter.activeCount b + (if c.address = b ∧ c'.phase.charged = true then 1 else 0))
    (hbound : ∀ b, s'.limiter.activeCount b ≤ maxConnectionsPerHost)
    (hadmitted : ∀ c ∈ s'.calls, c.phase = .admitted →
      (s'.limiter.stats.lookup c.address).isSome ∧
        s'.limiter.activeCount c.address < maxConnectionsPerHost) :
    Counted s' where
  maximum := hmaximum.trans h.maximum
  holder := by
    -- Both sums have the same summands before and after, except that of the call.
    have hholder := h.holder
    rw [hcalls, List.countP_append, List.countP_cons] at hholder
    rw [hcalls', List.countP_append, List.countP_cons]
    omega
  count := by
    intro b
    have hold := h.count b
    have hstep := hcount b
    rw [chargedTo, hcalls, List.countP_append, List.countP_cons] at hold
    rw [chargedTo, hcalls', List.countP_append, List.countP_cons, haddress]
    simp only [Bool.and_eq_true, decide_eq_true_eq] at hold ⊢
    omega
  bound := hbound
  admitted := hadmitted

/-- A call moves, the limiter does not change, and the call stays charged or stays uncharged. -/
theorem Counted.move_same (h : Counted s) (hcalls : s.calls = before ++ c :: after)
    (hcalls' : s'.calls = before ++ c' :: after) (haddress : c'.address = c.address)
    (hlimiter : s'.limiter = s.limiter)
    (hlock : (if s'.isLocked then 1 else 0) + (if c.phase.holdsLock then 1 else 0) =
      (if s.isLocked then 1 else 0) + (if c'.phase.holdsLock then 1 else 0))
    (hcharged : c'.phase.charged = c.phase.charged) (hphase : c'.phase ≠ .admitted) :
    Counted s' := by
  refine h.move hcalls hcalls' haddress (by rw [hlimiter]) hlock ?_ ?_ ?_
  · intro b
    rw [hlimiter, hcharged]
  · intro b
    rw [hlimiter]
    exact h.bound b
  · intro x hx hadmitted
    rw [hlimiter]
    rw [hcalls'] at hx
    -- The call itself is not admitted after its move, so an admitted call is another one.
    have hold : x ∈ s.calls := by
      rw [hcalls]
      simp only [List.mem_append, List.mem_cons] at hx ⊢
      rcases hx with hx | rfl | hx
      · exact Or.inl hx
      · exact absurd hadmitted hphase
      · exact Or.inr (Or.inr hx)
    exact h.admitted x hold hadmitted

/-- A call that has the mutex moves. Only this call can be admitted afterwards. -/
theorem Counted.move_holder (h : Counted s) (hcalls : s.calls = before ++ c :: after)
    (hholds : c.phase.holdsLock = true) (hcalls' : s'.calls = before ++ c' :: after)
    (haddress : c'.address = c.address)
    (hmaximum : s'.limiter.maxConnectionsPerHost = s.limiter.maxConnectionsPerHost)
    (hlock : s'.isLocked = c'.phase.holdsLock)
    (hcount : ∀ b, s'.limiter.activeCount b +
        (if c.address = b ∧ c.phase.charged = true then 1 else 0) =
      s.limiter.activeCount b + (if c.address = b ∧ c'.phase.charged = true then 1 else 0))
    (hbound : ∀ b, s'.limiter.activeCount b ≤ maxConnectionsPerHost)
    (hadmitted : c'.phase = .admitted → (s'.limiter.stats.lookup c.address).isSome ∧
      s'.limiter.activeCount c.address < maxConnectionsPerHost) :
    Counted s' := by
  obtain ⟨hlocked, hothers⟩ := h.others hcalls hholds
  refine h.move hcalls hcalls' haddress hmaximum ?_ hcount hbound ?_
  · -- The mutex is taken afterwards exactly when the call still has it.
    rw [hlocked, hholds, hlock]
    simp only [if_true]
    omega
  · intro x hx hphase
    rw [hcalls'] at hx
    -- No other call has the mutex, so none of them is admitted.
    have hfree : x ∉ before ++ after := by
      intro hother
      have hlock := hothers x hother
      rw [hphase] at hlock
      cases hlock
    rw [List.mem_append, not_or] at hfree
    rcases List.mem_append.mp hx with hbefore | hx
    · exact absurd hbefore hfree.1
    · rcases List.mem_cons.mp hx with rfl | hafter
      · rw [haddress]
        exact hadmitted hphase
      · exact absurd hafter hfree.2

/-- A call that waits takes the mutex when it is free. -/
theorem Counted.acquire (h : Counted s) (hc : s.calls[i]? = some ⟨address, .waiting⟩) :
    Counted (s.advance i ⟨address, .waiting⟩) := by
  obtain ⟨before, after, hcalls, hset⟩ := exists_split hc
  by_cases hlocked : s.isLocked = true
  · -- The call keeps waiting.
    simpa [LimiterState.advance, hlocked] using h
  · have hstep : s.advance i ⟨address, .waiting⟩ =
        { s with isLocked := true, calls := before ++ ⟨address, .locked⟩ :: after } := by
      simp [LimiterState.advance, hlocked, hset]
    rw [hstep]
    exact h.move_same hcalls rfl rfl rfl (by simp [hlocked, CallPhase.holdsLock]) rfl (by simp)

/-- The limiter allows a connection only when the address has room, and changes no count. -/
theorem Counted.check (h : Counted s) (hc : s.calls[i]? = some ⟨address, .locked⟩) :
    Counted (s.advance i ⟨address, .locked⟩) := by
  obtain ⟨before, after, hcalls, hset⟩ := exists_split hc
  cases hcan : s.limiter.canConnect address s.now with
  | mk allowed limiter =>
    have hlimiter : limiter = (s.limiter.canConnect address s.now).2 := by
      rw [hcan]
    cases allowed with
    | true =>
      have hstep : s.advance i ⟨address, .locked⟩ =
          { s with limiter, calls := before ++ ⟨address, .admitted⟩ :: after } := by
        simp [LimiterState.advance, hcan, hset]
      -- The mutex stays taken until the call has counted itself, so the room cannot be used up by
      -- another call in between.
      have hroom : s.limiter.activeCount address < s.limiter.maxConnectionsPerHost :=
        ConnectionLimiter.canConnect_fst.mp (congrArg Prod.fst hcan)
      rw [hstep, hlimiter]
      refine h.move_holder hcalls rfl rfl rfl (by simp) (h.others hcalls rfl).1 ?_ ?_ ?_
      · intro b
        simp [CallPhase.charged]
      · intro b
        simpa using h.bound b
      · intro _
        rw [h.maximum] at hroom
        exact ⟨ConnectionLimiter.lookup_canConnect, by simpa using hroom⟩
    | false =>
      have hstep : s.advance i ⟨address, .locked⟩ =
          { s with limiter, isLocked := false,
                   calls := before ++ ⟨address, .rejected⟩ :: after } := by
        simp [LimiterState.advance, hcan, hset]
      rw [hstep, hlimiter]
      refine h.move_holder hcalls rfl rfl rfl (by simp) rfl ?_ ?_ (by simp)
      · intro b
        simp [CallPhase.charged]
      · intro b
        simpa using h.bound b

/-- An admitted call counts itself. It has had the mutex since the check, so the room and the entry
that the check has found are still there. -/
theorem Counted.count_call (h : Counted s) (hc : s.calls[i]? = some ⟨address, .admitted⟩) :
    Counted (s.advance i ⟨address, .admitted⟩) := by
  obtain ⟨before, after, hcalls, hset⟩ := exists_split hc
  obtain ⟨hentry, hroom⟩ := h.admitted _ (List.mem_of_getElem? hc) rfl
  have hstep : s.advance i ⟨address, .admitted⟩ =
      { s with limiter := s.limiter.incrementCount address,
               calls := before ++ ⟨address, .counted⟩ :: after } := by
    simp [LimiterState.advance, hset]
  rw [hstep]
  refine h.move_holder hcalls rfl rfl rfl (by simp) (h.others hcalls rfl).1 ?_ ?_ (by simp)
  · intro b
    rw [ConnectionLimiter.activeCount_incrementCount hentry]
    by_cases hb : b = address
    · simp [CallPhase.charged, hb]
    · simp [CallPhase.charged, hb, Ne.symm hb]
  · intro b
    rw [ConnectionLimiter.activeCount_incrementCount hentry]
    split
    · next hb =>
      subst hb
      exact hroom
    · exact h.bound b

/-- A release task takes the mutex, or gives up and leaves the call charged. -/
theorem Counted.tryLock (h : Counted s) (hc : s.calls[i]? = some ⟨address, .releasing⟩) :
    Counted (s.advance i ⟨address, .releasing⟩) := by
  obtain ⟨before, after, hcalls, hset⟩ := exists_split hc
  by_cases hlocked : s.isLocked = true
  · -- The task gives up. The count is still right, but nothing will decrement it any more.
    have hstep : s.advance i ⟨address, .releasing⟩ =
        { s with calls := before ++ ⟨address, .lost⟩ :: after } := by
      simp [LimiterState.advance, hlocked, hset]
    rw [hstep]
    exact h.move_same hcalls rfl rfl rfl rfl rfl (by simp)
  · have hstep : s.advance i ⟨address, .releasing⟩ =
        { s with isLocked := true, calls := before ++ ⟨address, .decrementing⟩ :: after } := by
      simp [LimiterState.advance, hlocked, hset]
    rw [hstep]
    exact h.move_same hcalls rfl rfl rfl (by simp [hlocked, CallPhase.holdsLock]) rfl (by simp)

/-- A release task decrements the count. The call is charged, so the count is positive and the
subtraction does not saturate. -/
theorem Counted.release (h : Counted s) (hc : s.calls[i]? = some ⟨address, .decrementing⟩) :
    Counted (s.advance i ⟨address, .decrementing⟩) := by
  obtain ⟨before, after, hcalls, hset⟩ := exists_split hc
  have hpos : 0 < s.limiter.activeCount address := by
    rw [h.count, chargedTo]
    exact List.countP_pos_iff.mpr
      ⟨⟨address, .decrementing⟩, List.mem_of_getElem? hc, by simp [CallPhase.charged]⟩
  have hstep : s.advance i ⟨address, .decrementing⟩ =
      { s with limiter := s.limiter.decrementCount address, isLocked := false,
               calls := before ++ ⟨address, .finished⟩ :: after } := by
    simp [LimiterState.advance, hset]
  rw [hstep]
  refine h.move_holder hcalls rfl rfl rfl (by simp) rfl ?_ ?_ (by simp)
  · intro b
    by_cases hb : b = address
    · subst hb
      simp [CallPhase.charged]
      omega
    · simp [CallPhase.charged, hb, Ne.symm hb]
  · intro b
    have hle := h.bound b
    simp only [ConnectionLimiter.activeCount_decrementCount]
    split
    · omega
    · exact hle

/-- The invariant is kept by every step of a call. -/
theorem Counted.advance (h : Counted s) (hc : s.calls[i]? = some c) : Counted (s.advance i c) := by
  obtain ⟨before, after, hcalls, hset⟩ := exists_split hc
  obtain ⟨address, phase⟩ := c
  cases phase with
  | waiting => exact h.acquire hc
  | locked => exact h.check hc
  | admitted => exact h.count_call hc
  | counted =>
    -- The mutex is given back, and the guard keeps the call charged.
    have hstep : s.advance i ⟨address, .counted⟩ =
        { s with isLocked := false, calls := before ++ ⟨address, .connected⟩ :: after } := by
      simp [LimiterState.advance, hset]
    rw [hstep]
    exact h.move_same hcalls rfl rfl rfl
      (by simp [CallPhase.holdsLock, (h.others hcalls rfl).1]) rfl (by simp)
  | connected =>
    have hstep : s.advance i ⟨address, .connected⟩ =
        { s with calls := before ++ ⟨address, .releasing⟩ :: after } := by
      simp [LimiterState.advance, hset]
    rw [hstep]
    exact h.move_same hcalls rfl rfl rfl rfl rfl (by simp)
  | releasing => exact h.tryLock hc
  | decrementing => exact h.release hc
  | rejected => exact h
  | finished => exact h
  | lost => exact h

/-- The step of a call is the event that names it. -/
theorem step_advance (hc : s.calls[i]? = some c) : s.step (.advance i) = s.advance i c := by
  simp only [LimiterState.step, hc]

/-- A number without a call. -/
theorem step_advance_none (hc : s.calls[i]? = none) : s.step (.advance i) = s := by
  simp only [LimiterState.step, hc]

/-- The invariant is kept by every event. -/
theorem Counted.step (h : Counted s) (event : LimiterEvent) : Counted (s.step event) := by
  cases event with
  | call address =>
    -- A new call has no mutex and is not charged.
    refine ⟨h.maximum, ?_, ?_, h.bound, ?_⟩
    · show List.countP _ (s.calls ++ [⟨address, .waiting⟩]) = _
      rw [List.countP_append, h.holder]
      rfl
    · intro b
      rw [show (s.step (.call address)).limiter = s.limiter from rfl, h.count b]
      simp [LimiterState.step, chargedTo, CallPhase.charged]
    · intro x hx hphase
      rcases List.mem_append.mp hx with hx | hx
      · exact h.admitted x hx hphase
      · rw [List.mem_singleton.mp hx] at hphase
        cases hphase
  | wait duration => exact ⟨h.maximum, h.holder, h.count, h.bound, h.admitted⟩
  | advance i =>
    cases hc : s.calls[i]? with
    | some c =>
      rw [step_advance hc]
      exact h.advance hc
    | none =>
      rw [step_advance_none hc]
      exact h

/-- A new limiter counts nothing. -/
theorem counted_init : Counted init where
  maximum := rfl
  holder := rfl
  count := by
    intro address
    rfl
  bound := by
    intro address
    exact Nat.zero_le _
  admitted := by
    intro c hc
    cases hc

/-- The events of a longer run. -/
theorem run_append (events : List LimiterEvent) (event : LimiterEvent) :
    run (events ++ [event]) = (run events).step event :=
  List.foldl_append

/-- The invariant holds after every run. -/
theorem counted_run (events : List LimiterEvent) : Counted (run events) := by
  induction events using List.reverseRecOn with
  | nil => exact counted_init
  | append_singleton events event ih =>
    rw [run_append]
    exact ih.step event

/-! ### The cap -/

/-- A live guard is charged. -/
theorem countP_live_le (calls : List OutboundCall) (address : String) :
    calls.countP (fun c => c.address = address && c.phase = .connected) ≤
      calls.countP fun c => c.address = address && c.phase.charged := by
  refine List.countP_mono_left ?_
  intro c _ hlive
  simp only [Bool.and_eq_true, decide_eq_true_eq] at hlive ⊢
  rw [hlive.2]
  exact ⟨hlive.1, rfl⟩

/-- A call that is about to be decremented is charged, besides the live guards. -/
theorem liveGuards_lt_chargedTo (hmem : (⟨address, .decrementing⟩ : OutboundCall) ∈ s.calls) :
    s.liveGuards address < s.chargedTo address := by
  obtain ⟨before, after, hcalls⟩ := List.append_of_mem hmem
  have hbefore := countP_live_le before address
  have hafter := countP_live_le after address
  rw [liveGuards, chargedTo, hcalls, List.countP_append, List.countP_append, List.countP_cons,
    List.countP_cons, if_neg (by simp), if_pos (by simp [CallPhase.charged])]
  omega

/-- After every run and for every address, the live guards are no more than the recorded count, and
this is no more than the maximum. A release always finds a positive count, which it makes one
smaller, so that the count still covers the live guards. A cleanup at any time keeps the entry of
an address with a live guard. -/
theorem limiter_cap (events : List LimiterEvent) (address : String) :
    (run events).liveGuards address ≤ (run events).limiter.activeCount address ∧
    (run events).limiter.activeCount address ≤ maxConnectionsPerHost ∧
    ((⟨address, .decrementing⟩ : OutboundCall) ∈ (run events).calls →
      ((run events).limiter.decrementCount address).activeCount address + 1 =
          (run events).limiter.activeCount address ∧
        (run events).liveGuards address ≤
          ((run events).limiter.decrementCount address).activeCount address) ∧
    (0 < (run events).liveGuards address → ∀ now,
      (((run events).limiter.cleanupOldEntries now).stats.lookup address).isSome ∧
        ((run events).limiter.cleanupOldEntries now).stats.lookup address =
          (run events).limiter.stats.lookup address) := by
  have h := counted_run events
  have hcount := h.count address
  have hlive : (run events).liveGuards address ≤ (run events).limiter.activeCount address := by
    rw [hcount]
    exact countP_live_le _ address
  refine ⟨hlive, h.bound address, ?_, ?_⟩
  · intro hmem
    -- The release is charged besides the live guards, so they are fewer than the count.
    have hlt := liveGuards_lt_chargedTo hmem
    rw [ConnectionLimiter.activeCount_decrementCount, if_pos rfl]
    omega
  · intro hguard now
    -- The recorded count is positive, so there is an entry and the cleanup keeps it.
    have hpos : 0 < (run events).limiter.activeCount address := Nat.lt_of_lt_of_le hguard hlive
    cases hentry : (run events).limiter.stats.lookup address with
    | none =>
      rw [ConnectionLimiter.activeCount_of_none hentry] at hpos
      exact absurd hpos (lt_irrefl 0)
    | some st =>
      rw [ConnectionLimiter.activeCount_of_lookup hentry] at hpos
      have hkept : ((run events).limiter.cleanupOldEntries now).stats.lookup address = some st :=
        ConnectionLimiter.lookup_cleanupOldEntries.mpr ⟨hentry, Or.inl hpos⟩
      rw [hkept]
      exact ⟨rfl, rfl⟩

/-! ### Lost releases -/

/-- Every release task of a call to the address has found the mutex free. -/
def ReleasesUnlocked (address : String) (events : List LimiterEvent) : Prop :=
  ∀ earlier i, earlier ++ [.advance i] <+: events →
    (run earlier).calls[i]? = some ⟨address, .releasing⟩ → (run earlier).isLocked = false

/-- A step of a call changes the phase of that call only, and loses its release exactly when the
release task finds the mutex taken. -/
theorem calls_advance (hc : s.calls[i]? = some c) : ∃ phase,
    (s.advance i c).calls = s.calls.set i ⟨c.address, phase⟩ ∧
      (phase = .lost ↔ c.phase = .lost ∨ c.phase = .releasing ∧ s.isLocked = true) := by
  -- A call that has ended, or that keeps waiting, is written back as it was.
  have hstay : s.calls.set i ⟨c.address, c.phase⟩ = s.calls := by
    obtain ⟨before, after, hcalls, hset⟩ := exists_split hc
    rw [hset, hcalls]
  obtain ⟨address, phase⟩ := c
  cases phase with
  | waiting =>
    by_cases hlocked : s.isLocked = true
    · exact ⟨.waiting, by simp [LimiterState.advance, hlocked, hstay], by simp⟩
    · exact ⟨.locked, by simp [LimiterState.advance, hlocked], by simp⟩
  | locked =>
    cases hcan : s.limiter.canConnect address s.now with
    | mk allowed limiter =>
      cases allowed with
      | true => exact ⟨.admitted, by simp [LimiterState.advance, hcan], by simp⟩
      | false => exact ⟨.rejected, by simp [LimiterState.advance, hcan], by simp⟩
  | admitted => exact ⟨.counted, rfl, by simp⟩
  | counted => exact ⟨.connected, rfl, by simp⟩
  | connected => exact ⟨.releasing, rfl, by simp⟩
  | releasing =>
    by_cases hlocked : s.isLocked = true
    · exact ⟨.lost, by simp [LimiterState.advance, hlocked], by simp [hlocked]⟩
    · exact ⟨.decrementing, by simp [LimiterState.advance, hlocked], by simp [hlocked]⟩
  | decrementing => exact ⟨.finished, rfl, by simp⟩
  | rejected => exact ⟨.rejected, hstay.symm, by simp⟩
  | finished => exact ⟨.finished, hstay.symm, by simp⟩
  | lost => exact ⟨.lost, hstay.symm, by simp⟩

/-- The releases that are lost after an event: those that were lost before, and the one whose task
runs in this event and finds the mutex taken. -/
theorem mem_lost_step {event : LimiterEvent} :
    (⟨address, .lost⟩ : OutboundCall) ∈ (s.step event).calls ↔
      (⟨address, .lost⟩ : OutboundCall) ∈ s.calls ∨
        ∃ i, event = .advance i ∧ s.calls[i]? = some ⟨address, .releasing⟩ ∧
          s.isLocked = true := by
  cases event with
  | call a => simp [LimiterState.step]
  | wait duration => simp [LimiterState.step]
  | advance i =>
    cases hc : s.calls[i]? with
    | none => simp [step_advance_none hc, hc]
    | some c =>
      obtain ⟨phase, hadvance, hlost⟩ := calls_advance hc
      obtain ⟨before, after, hcalls, hset⟩ := exists_split hc
      obtain ⟨a, p⟩ := c
      -- Whether a release of the address is lost is decided by the call that moves, for any phase
      -- that it moves to.
      have hsplit : ∀ q : CallPhase, (⟨address, .lost⟩ : OutboundCall) ∈ before ++ ⟨a, q⟩ :: after ↔
          (⟨address, .lost⟩ : OutboundCall) ∈ before ∨ (a = address ∧ q = .lost) ∨
            (⟨address, .lost⟩ : OutboundCall) ∈ after := by
        intro q
        rw [List.mem_append, List.mem_cons, OutboundCall.mk.injEq, eq_comm (a := address),
          eq_comm (a := CallPhase.lost)]
      have hrelease : (∃ j, LimiterEvent.advance i = .advance j ∧
          s.calls[j]? = some ⟨address, .releasing⟩ ∧ s.isLocked = true) ↔
            a = address ∧ p = .releasing ∧ s.isLocked = true := by
        simp [hc, and_assoc]
      rw [step_advance hc, hadvance, hset, hsplit, hcalls, hsplit, ← hcalls, hrelease, hlost]
      simp only [and_or_left, or_assoc, or_left_comm, or_comm]

/-- A call to the address has lost its release if and only if some release task of such a call has
found the mutex taken. -/
theorem mem_lost_run (events : List LimiterEvent) :
    (⟨address, .lost⟩ : OutboundCall) ∉ (run events).calls ↔ ReleasesUnlocked address events := by
  induction events using List.reverseRecOn with
  | nil =>
    constructor
    · intro _ earlier i hpre
      simp at hpre
    · intro _ hmem
      cases hmem
  | append_singleton events event ih =>
    rw [run_append, mem_lost_step]
    constructor
    · intro hkept earlier i hpre hreleasing
      rcases List.prefix_concat_iff.mp hpre with heq | hearlier
      · -- The last event is the step of the release task.
        obtain ⟨rfl, hevent⟩ := List.append_inj' heq rfl
        by_contra hlocked
        exact hkept (Or.inr ⟨i, (List.singleton_inj.mp hevent).symm, hreleasing,
          Bool.not_eq_false _ ▸ hlocked⟩)
      · have hbefore := ih.mp (fun hmem => hkept (Or.inl hmem))
        exact hbefore earlier i hearlier hreleasing
    · intro hunlocked hmem
      rcases hmem with hmem | ⟨i, rfl, hreleasing, hlocked⟩
      · refine ih.mpr ?_ hmem
        intro earlier i hpre
        exact hunlocked earlier i (hpre.trans (List.prefix_append _ _))
      · have hfree := hunlocked events i (List.prefix_refl _) hreleasing
        rw [hlocked] at hfree
        cases hfree

/-- When no call to an address is in progress and no release task of one is pending, the recorded
count of the address is 0 and a new call passes the check, if and only if every release task of a
call to it has found the mutex free. -/
theorem slots_released_iff (events : List LimiterEvent) (address : String)
    (hquiet : ∀ c ∈ (run events).calls, c.address = address → c.phase.inProgress = false) :
    ((run events).limiter.activeCount address = 0 ∧
      ∀ now, ((run events).limiter.canConnect address now).1 = true) ↔
    ReleasesUnlocked address events := by
  -- The recorded count is that of the charged calls. In a quiet state only lost releases are
  -- charged.
  have h := counted_run events
  have hzero : (run events).limiter.activeCount address = 0 ↔
      (⟨address, .lost⟩ : OutboundCall) ∉ (run events).calls := by
    rw [h.count, chargedTo, List.countP_eq_zero]
    constructor
    · intro hnone hmem
      exact hnone _ hmem (by simp [CallPhase.charged])
    · intro hkept c hc hcharged
      obtain ⟨a, phase⟩ := c
      simp only [Bool.and_eq_true, decide_eq_true_eq] at hcharged
      obtain ⟨rfl, hcharged⟩ := hcharged
      have hdone := hquiet _ hc rfl
      -- A call that has ended and is still charged has lost its release.
      cases phase with
      | lost => exact hkept hc
      | rejected => cases hcharged
      | finished => cases hcharged
      | waiting | locked | admitted | counted | connected | releasing | decrementing => cases hdone
  rw [← mem_lost_run, ← hzero]
  constructor
  · intro hboth
    exact hboth.1
  · intro hcount
    refine ⟨hcount, ?_⟩
    intro now
    rw [ConnectionLimiter.canConnect_fst, hcount, h.maximum]
    decide

/-- The release task of a finished call finds the mutex taken by a call to another address. Both
calls end, and the first address keeps its count. -/
theorem not_slots_released :
    ¬∀ (events : List LimiterEvent) (address : String),
      (∀ c ∈ (run events).calls, c.address = address → c.phase.inProgress = false) →
      (run events).limiter.activeCount address = 0 ∧
        ∀ now, ((run events).limiter.canConnect address now).1 = true := by
  intro h
  have hcount := (h ([.call "10.0.0.1:8001", .call "10.0.0.2:8001"] ++
    List.replicate 5 (.advance 0) ++ [.advance 1, .advance 0] ++ List.replicate 6 (.advance 1))
    "10.0.0.1:8001" (by decide +kernel)).1
  exact absurd hcount (by decide +kernel)

/-- One call whose release task finds the mutex free. -/
theorem slots_released_iff_single :
    (run (.call "10.0.0.1:8001" :: List.replicate 7 (.advance 0))).limiter.activeCount
      "10.0.0.1:8001" = 0 := by
  have hquiet : ∀ c ∈ (run (.call "10.0.0.1:8001" :: List.replicate 7 (.advance 0))).calls,
      c.address = "10.0.0.1:8001" → c.phase.inProgress = false := by
    decide +kernel
  refine ((slots_released_iff _ _ hquiet).mpr ?_).1
  rw [← mem_lost_run]
  decide +kernel

end LimiterState

end TaceChat
