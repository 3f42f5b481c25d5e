/-! The count of connections that have not ended.

Each tracked connection has a guard with a number of its own; giving the guard up takes
the connection off the count. Waiting for idleness ends when the count is zero.

A guard also bears an id, which tells its connection from those of other trackers. -/
namespace Parley

/-- Tells a connection from all others. The ids are given out in the order of their numbers,
which go round at 64 bits. -/
structure ConnectionId where
  number : UInt64
  deriving Repr, DecidableEq

namespace ConnectionId

def first : ConnectionId := ⟨1⟩

/-- The id that is given out after this one. -/
def succ (id : ConnectionId) : ConnectionId := ⟨id.number + 1⟩

end ConnectionId

structure Tracker where
  active : Nat := 0
  /-- The number of the next guard. -/
  next : Nat := 0
  deriving Repr, DecidableEq

namespace Tracker

/-- Counts a connection in; the number is its guard's. -/
def track (t : Tracker) : Nat × Tracker := (t.next, ⟨t.active + 1, t.next + 1⟩)

/-- Counts a connection out. -/
def release (t : Tracker) : Tracker := { t with active := t.active - 1 }

def isIdle (t : Tracker) : Bool := t.active == 0

/-- The text of a guard's number. -/
def label (guard : Nat) : String := s!"conn-{guard}"

end Tracker
end Parley
