import Parley.Engine.Basic

/-! What servers and clients report of a step. -/
namespace Parley

/-- Names a stream. -/
abbrev StreamId := Nat

inductive Event where
  /-- Something happened in an engine. -/
  | engine (ev : Engine.Event)
  /-- A server admitted a connection. -/
  | accepted
  /-- A server closed a connection for lack of a slot. -/
  | rejected
  | handshakeFailed
  /-- A connection task started. -/
  | opened
  /-- A connection task ended. -/
  | closed
  /-- A stream was given up unused. -/
  | dropped (stream : StreamId)
  /-- A call returned. -/
  | returned (call : CallId) (o : Engine.Outcome)

/-- Takes an event into the counters. -/
def Event.count (m : Metrics) : Event → Metrics
  | .engine ev => ev.count m
  | .accepted => { m with accepted := m.accepted + 1 }
  | .rejected => { m with rejected := m.rejected + 1 }
  | .handshakeFailed => { m with handshakeFailures := m.handshakeFailures + 1 }
  | .opened => { m with active := m.active + 1 }
  | .closed => { m with active := m.active - 1 }
  | _ => m

/-- What a call that only succeeds or fails comes to. -/
def Engine.Outcome.ofResult : Except Error Unit → Engine.Outcome
  | .ok _ => .done
  | .error e => .failed e

end Parley
