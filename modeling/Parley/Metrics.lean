/-! Counters of what connections do. -/
namespace Parley

structure Metrics where
  /-- Connections being handled now. -/
  active : Nat := 0
  /-- Connections a server admitted. -/
  accepted : Nat := 0
  /-- Connections a server closed for lack of a slot. -/
  rejected : Nat := 0
  /-- Handshakes that failed or ran out of time. -/
  handshakeFailures : Nat := 0
  received : Nat := 0
  sent : Nat := 0
  /-- Requests given up after their deadline. -/
  requestTimeouts : Nat := 0
  deriving Repr, DecidableEq

end Parley
