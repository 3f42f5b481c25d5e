import Parley.Engine.Basic
import Parley.Sim.System
import Parley.Tracker

/-! Connections that come and go, and waiting until there are none. -/
namespace Parley.Sim.Tracking

structure State where
  tracker : Tracker := {}
  /-- The id that is given out next, to whomever. -/
  next : ConnectionId := .first
  /-- The guards alive. -/
  guards : List Nat := []
  waits : List CallId := []
  ended : List CallId := []

/-- A wait ends when the count is zero. -/
def step (id : CallId) (s : State) : Option State :=
  if s.waits.contains id && s.tracker.isIdle then
    some { s with waits := s.waits.filter (· != id), ended := s.ended ++ [id] }
  else none

def system : System State CallId where
  tasks := State.waits
  step

namespace State

def settle (s : State) : State := system.settle patience s

/-- Gives out an id. -/
def takeId (s : State) : ConnectionId × State := (s.next, { s with next := s.next.succ })

/-- Tracks a connection and says its guard's number. -/
def track (s : State) : Nat × State :=
  let (guard, tracker) := s.tracker.track
  (guard, { s.takeId.2 with tracker, guards := guard :: s.guards })

/-- Gives a guard up. -/
def drop (s : State) (guard : Nat) : State :=
  if s.guards.contains guard then
    { s with tracker := s.tracker.release, guards := s.guards.filter (· != guard) }
  else s

end State
end Parley.Sim.Tracking
