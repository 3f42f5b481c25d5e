import Parley.Engine.Basic
import Parley.Signal
import Parley.Sim.System

/-! Waiting on cancellation signals. -/
namespace Parley.Sim.Signals

structure State where
  source : Shutdown := {}
  /-- The waits that are not over. -/
  waits : List (CallId × Signal) := []
  /-- The waits that ended since the last report. -/
  ended : List CallId := []

/-- A wait ends once its signal is cancelled. -/
def step (id : CallId) (s : State) : Option State :=
  match s.waits.lookup id with
  | none => none
  | some signal =>
    if signal.isCancelled s.source then
      some { s with waits := s.waits.filter (·.1 != id), ended := s.ended ++ [id] }
    else none

def system : System State CallId where
  tasks s := s.waits.map (·.1)
  step

namespace State

def settle (s : State) : State := system.settle patience s

def wait (s : State) (id : CallId) (signal : Signal) : State :=
  { s with waits := s.waits ++ [(id, signal)] }

/-- Fires the source, if it is still there. -/
def trigger (s : State) : Option Bool × State :=
  if s.source.dropped then (none, s)
  else
    let (first, source) := s.source.trigger
    (some first, { s with source })

def giveUp (s : State) (id : CallId) : State :=
  { s with waits := s.waits.filter (·.1 != id) }

end State
end Parley.Sim.Signals
