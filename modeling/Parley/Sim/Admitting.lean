import Parley.Admission
import Parley.Signal
import Parley.Sim.System

/-! Reservations on one admission control, in virtual time. -/
namespace Parley.Sim.Admitting

structure State where
  admission : Admission
  source : Shutdown := {}
  now : Nat := 0
  /-- The reservations in line, with the signals they listen to. -/
  waits : List (CallId × Signal) := []
  /-- The reservations whose slots are held. -/
  held : List CallId := []
  returned : List (CallId × Except Error Unit) := []

namespace State

/-- A reservation returns; with a slot it holds it. -/
def returns (s : State) (id : CallId) (r : Except Error Unit) : State :=
  { s with
    waits := s.waits.filter (·.1 != id)
    held := match r with
      | .ok _ => id :: s.held
      | .error _ => s.held
    returned := s.returned ++ [(id, r)] }

def stepWait (id : CallId) (s : State) : Option State :=
  match s.waits.lookup id with
  | none => none
  | some signal =>
    (s.admission.stepWait id s.now (signal.isCancelled s.source)).map fun (r, admission) =>
      { s with admission }.returns id r

end State

def system : Timed State CallId where
  tasks s := s.waits.map (·.1)
  step := State.stepWait
  now := State.now
  setNow now s := { s with now }
  dues s := s.admission.dues

namespace State

def settle (s : State) : State := system.settle patience s

def advance (s : State) (ms : Nat) : State :=
  system.advance patience s.now (s.now + ms) s.settle

def reserve (s : State) (id : CallId) (signal : Signal) : State :=
  match s.admission.ask id s.now (signal.isTriggered s.source) with
  | (some r, admission) => { s with admission }.returns id r
  | (none, admission) => { s with admission, waits := s.waits ++ [(id, signal)] }

/-- Gives back a slot that is held. -/
def release (s : State) (id : CallId) : State :=
  if s.held.contains id then
    { s with admission := s.admission.release, held := s.held.erase id }
  else s

/-- Drops a reservation that is in line. -/
def giveUp (s : State) (id : CallId) : State :=
  if s.waits.any (·.1 == id) then
    { s with admission := s.admission.leave id, waits := s.waits.filter (·.1 != id) }
  else s

/-- Fires the source, if it is still there. -/
def trigger (s : State) : Option Bool × State :=
  if s.source.dropped then (none, s)
  else
    let (first, source) := s.source.trigger
    (some first, { s with source })

end State
end Parley.Sim.Admitting
