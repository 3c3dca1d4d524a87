import Mathlib.Data.List.AList
import Mathlib.Data.Nat.Notation

/-!
# The connection limiter

The client of a node counts its open connections for each address, behind one mutex
(`network_client.rs`). `ConnectionLimiter` is that count with its four methods. `LimiterState` is
the limiter among any number of executions of `call_node_internal`, each at its own step
(`CallPhase`): a call waits for the mutex, asks the limiter and counts itself, holds its guard while
it uses the connection, and leaves the release to a task that is spawned when the guard is dropped.
That task takes the mutex only when it is free at once (`try_lock`).

Time is in nanoseconds.
-/

set_option autoImplicit false

namespace TaceChat

/-- The entry of an address. Times are in nanoseconds. -/
structure ConnectionStats where
  activeCount : ℕ
  lastCleanup : ℕ
  deriving DecidableEq

/-- `ConnectionLimiter`. An address has at most one entry. -/
structure ConnectionLimiter where
  stats : AList fun _ : String => ConnectionStats
  maxConnectionsPerHost : ℕ
  cleanupInterval : ℕ

/-- `MAX_CONNECTIONS_PER_HOST`. -/
def maxConnectionsPerHost : ℕ := 5

namespace ConnectionLimiter

/-- `ConnectionLimiter::new`: no entry, and an interval of 30 seconds. -/
def new (maxConnectionsPerHost : ℕ) : ConnectionLimiter where
  stats := ∅
  maxConnectionsPerHost
  cleanupInterval := 30 * 1000000000

/-- The recorded count of an address, 0 when there is no entry. -/
def activeCount (self : ConnectionLimiter) (address : String) : ℕ :=
  ((self.stats.lookup address).map ConnectionStats.activeCount).getD 0

/-- Keeps the entries with a connection, and those that are younger than two intervals. -/
def cleanupOldEntries (self : ConnectionLimiter) (now : ℕ) : ConnectionLimiter :=
  { self with
    stats :=
      ⟨self.stats.entries.filter fun e =>
          0 < e.2.activeCount || now - e.2.lastCleanup < self.cleanupInterval * 2,
        self.stats.nodupKeys.sublist List.filter_sublist⟩ }

/-- The cleanup of `can_connect`, which some entry calls for when it is older than an interval. -/
def cleanupPeriodically (self : ConnectionLimiter) (now : ℕ) : ConnectionLimiter :=
  if self.stats.entries.any fun e => self.cleanupInterval < now - e.2.lastCleanup then
    self.cleanupOldEntries now
  else self

/-- Whether one more connection to the address is allowed. The address has an entry afterwards. -/
def canConnect (self : ConnectionLimiter) (address : String) (now : ℕ) :
    Bool × ConnectionLimiter :=
  let cleaned := self.cleanupPeriodically now
  match cleaned.stats.lookup address with
  | some stats => (stats.activeCount < self.maxConnectionsPerHost, cleaned)
  | none =>
    (0 < self.maxConnectionsPerHost,
      { cleaned with stats := cleaned.stats.insert address ⟨0, now⟩ })

/-- An address without an entry stays without one. -/
def incrementCount (self : ConnectionLimiter) (address : String) : ConnectionLimiter :=
  match self.stats.lookup address with
  | some stats =>
    { self with
      stats := self.stats.insert address { stats with activeCount := stats.activeCount + 1 } }
  | none => self

/-- The subtraction saturates at 0. -/
def decrementCount (self : ConnectionLimiter) (address : String) : ConnectionLimiter :=
  match self.stats.lookup address with
  | some stats =>
    { self with
      stats := self.stats.insert address { stats with activeCount := stats.activeCount - 1 } }
  | none => self

end ConnectionLimiter

/-! ### Concurrent calls -/

/-- Where an execution of `call_node_internal` is. -/
inductive CallPhase
  /-- It waits for the mutex of the limiter. -/
  | waiting
  /-- It has the mutex and has not asked the limiter yet. -/
  | locked
  /-- The limiter allows the connection. The call still has the mutex. -/
  | admitted
  /-- The limiter does not allow the connection. The call has failed. -/
  | rejected
  /-- It has counted itself and still has the mutex. -/
  | counted
  /-- It uses the connection and has its guard. -/
  | connected
  /-- The guard is dropped, and the task that releases the slot has not run. -/
  | releasing
  /-- The task that releases the slot has the mutex. -/
  | decrementing
  /-- The slot is released. -/
  | finished
  /-- The task has found the mutex taken and given up. -/
  | lost
  deriving DecidableEq

/-- An execution of `call_node_internal` for an address. -/
structure OutboundCall where
  address : String
  phase : CallPhase
  deriving DecidableEq

/-- The limiter of a client with the calls that use it. -/
structure LimiterState where
  limiter : ConnectionLimiter
  /-- The mutex is taken. -/
  isLocked : Bool
  now : ℕ
  /-- The calls in the order in which they have started. -/
  calls : List OutboundCall

/-- The next step of a call. The call does not move when it waits for the mutex and the mutex is
taken, or when it has ended. -/
def LimiterState.advance (s : LimiterState) (i : ℕ) (c : OutboundCall) : LimiterState :=
  let move (phase : CallPhase) : List OutboundCall := s.calls.set i { c with phase }
  match c.phase with
  | .waiting => if s.isLocked then s else { s with isLocked := true, calls := move .locked }
  | .locked =>
    match s.limiter.canConnect c.address s.now with
    | (true, limiter) => { s with limiter, calls := move .admitted }
    | (false, limiter) => { s with limiter, isLocked := false, calls := move .rejected }
  | .admitted =>
    { s with limiter := s.limiter.incrementCount c.address, calls := move .counted }
  | .counted => { s with isLocked := false, calls := move .connected }
  -- The connection may end in any way and at any time.
  | .connected => { s with calls := move .releasing }
  | .releasing =>
    if s.isLocked then { s with calls := move .lost }
    else { s with isLocked := true, calls := move .decrementing }
  | .decrementing =>
    { s with
      limiter := s.limiter.decrementCount c.address
      isLocked := false
      calls := move .finished }
  | .rejected | .finished | .lost => s

/-- What happens next among the calls. -/
inductive LimiterEvent
  /-- A call to the address starts. -/
  | call (address : String)
  /-- Time passes. -/
  | wait (duration : ℕ)
  /-- The call of that number takes its next step. -/
  | advance (i : ℕ)
  deriving DecidableEq

namespace LimiterState

/-- The limiter of a new client. -/
def init : LimiterState where
  limiter := ConnectionLimiter.new maxConnectionsPerHost
  isLocked := false
  now := 0
  calls := []

/-- The state after an event. A number without a call is no event. -/
def step (s : LimiterState) : LimiterEvent → LimiterState
  | .call address => { s with calls := s.calls ++ [⟨address, .waiting⟩] }
  | .wait duration => { s with now := s.now + duration }
  | .advance i =>
    match s.calls[i]? with
    | some c => s.advance i c
    | none => s

/-- The state after the events, in their order. -/
def run (events : List LimiterEvent) : LimiterState := events.foldl step init

end LimiterState

end TaceChat
