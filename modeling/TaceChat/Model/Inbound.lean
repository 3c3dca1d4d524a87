import TaceChat.Model.Load

/-!
# Inbound connections

`handle_connection` counts a connection in an atomic counter before it compares the count with the
maximum, and subtracts a connection over the maximum again. An admitted connection holds a
`ConnectionGuard`, which subtracts it when the handler returns, from wherever that is. The handlers
of all connections run concurrently, and each access to the counter is one step.
-/

set_option autoImplicit false

namespace TaceChat

/-- Where the handler of a connection is. -/
inductive HandlerPhase
  /-- The connection is accepted. -/
  | accepted
  /-- `fetch_add` has given the count before it, which is compared next. -/
  | counted (currentConnections : UInt32)
  /-- The connection is over the maximum and is subtracted next. -/
  | rejected
  /-- The handler has its guard. -/
  | guarded
  /-- The handler has returned. -/
  | returned
  deriving DecidableEq

/-- The counter of the open connections, and the handlers in the order of their connections. -/
structure InboundState where
  activeConnections : UInt32
  handlers : List HandlerPhase

/-- What happens next among the handlers. -/
inductive InboundEvent
  /-- A connection is accepted. -/
  | accept
  /-- The handler of that number takes its next step. -/
  | advance (i : ℕ)

namespace InboundState

/-- The next step of a handler. `fetch_add` and `fetch_sub` wrap. -/
def advance (s : InboundState) (i : ℕ) (h : HandlerPhase) : InboundState :=
  let move (phase : HandlerPhase) : List HandlerPhase := s.handlers.set i phase
  match h with
  | .accepted => ⟨s.activeConnections + 1, move (.counted s.activeConnections)⟩
  | .counted currentConnections =>
    if maxConnections ≤ currentConnections.toNat then { s with handlers := move .rejected }
    else { s with handlers := move .guarded }
  | .rejected => ⟨s.activeConnections - 1, move .returned⟩
  -- The guard is dropped wherever the handler returns.
  | .guarded => ⟨s.activeConnections - 1, move .returned⟩
  | .returned => s

/-- The connections after an event. A number without a handler is no event. -/
def step (s : InboundState) : InboundEvent → InboundState
  | .accept => { s with handlers := s.handlers ++ [.accepted] }
  | .advance i =>
    match s.handlers[i]? with
    | some h => s.advance i h
    | none => s

/-- The state of a new node. -/
def init : InboundState := ⟨0, []⟩

/-- The state after the events, in their order. -/
def run (events : List InboundEvent) : InboundState := events.foldl step init

/-- The condition of the loop in which `shutdown` waits. -/
def shutdownWaits (s : InboundState) : Bool := 0 < s.activeConnections

end InboundState

end TaceChat
