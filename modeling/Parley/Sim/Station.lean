import Parley.Engine.Step
import Parley.Sim.Application
import Parley.Sim.Peer
import Parley.Sim.System

/-! One engine over a stream to a plain far end, in virtual time. -/
namespace Parley.Sim.Station
open Channel

/-- A frame the application was handed: whether it is a message, and its payload. -/
abbrev Delivery := Bool × Bytes

structure State where
  engine : Engine
  stream : Duplex
  peer : Peer := {}
  now : Nat := 0
  /-- Whether the engine was told to stop. -/
  cancelled : Bool := false
  /-- Whether the application returns from callbacks. -/
  attentive : Bool := true
  application : Application := .silent
  /-- The call that is driving the stream. -/
  driving : Option CallId := none
  metrics : Metrics := {}
  /-- What happened since the last report, in order. -/
  delivered : List Delivery := []
  returned : List (CallId × Engine.Outcome) := []

namespace State

def env (s : State) : Engine.Env where
  now := s.now
  cancelled := s.cancelled
  attentive := s.attentive
  reply := s.application.reply

def outcomeOf : Except Error Unit → Engine.Outcome
  | .ok _ => .done
  | .error e => .failed e

/-- Notes an event. -/
def note (s : State) (ev : Engine.Event) : State :=
  let s := { s with metrics := ev.count s.metrics }
  match ev with
  | .delivered f => { s with delivered := s.delivered ++ [(f.isMessage, f.payload)] }
  | .returned id o => { s with returned := s.returned ++ [(id, o)] }
  | .ended result =>
    match s.driving with
    | none => s
    | some id => { s with driving := none, returned := s.returned ++ [(id, outcomeOf result)] }
  | _ => s

def stepEngine (t : Engine.Task) (s : State) : Option State :=
  (s.engine.step s.env t s.stream).map fun (engine, stream, events) =>
    events.foldl note { s with engine, stream }

def stepPeer (f : Peer → Duplex → Option (Peer × Duplex)) (s : State) : Option State :=
  (f s.peer s.stream.flip).map fun (peer, d) => { s with peer, stream := d.flip }

end State

inductive Task where
  | engine (t : Engine.Task)
  | send
  | hear
  deriving Repr, DecidableEq

def system : Timed State Task where
  tasks s := s.engine.tasks.map Task.engine ++ [.send, .hear]
  step
    | .engine t => State.stepEngine t
    | .send => State.stepPeer Peer.stepSend
    | .hear => State.stepPeer Peer.stepRead
  now := State.now
  setNow now s := { s with now }
  dues s := s.engine.dues

/-! ### What is done to the station -/

namespace State

def settle (s : State) : State := system.settle patience s

def advance (s : State) (ms : Nat) : State :=
  system.advance patience s.now (s.now + ms) s.settle

/-- A call that returns at once. -/
def returns (s : State) (id : CallId) (o : Engine.Outcome) : State :=
  { s with returned := s.returned ++ [(id, o)] }

/-- Drives the stream with fresh ciphers. An engine that was driven before refuses, whatever
the stream. -/
def start (s : State) (id : CallId) (key : SessionKey) (role : Role) : State :=
  let sealer := Sealer.create key role s.engine.settings.maxWrite
  let opener := Opener.create key role s.engine.settings.maxRead
  match s.engine.start s.now sealer opener with
  | .ok engine => { s with engine, driving := some id }
  | .error e => s.returns id (.failed e)

def post (s : State) (id : CallId) (payload : Bytes) : State :=
  match s.engine.post payload with
  | .ok engine => { s with engine }.returns id .done
  | .error e => s.returns id (.failed e)

def write (s : State) (id : CallId) (payload : Bytes) : State :=
  match s.engine.write id payload with
  | .ok engine => { s with engine }
  | .error e => s.returns id (.failed e)

def request (s : State) (id : CallId) (payload : Bytes) (capacity timeout : Nat) : State :=
  match s.engine.request id payload capacity (s.now + timeout) with
  | .ok engine => { s with engine }
  | .error e => s.returns id (.failed e)

/-- Drops a call, or the drive itself. -/
def giveUp (s : State) (id : CallId) : State :=
  if s.driving = some id then
    let (engine, stream) := s.engine.abandon s.stream
    { s with engine, stream, driving := none }
  else { s with engine := s.engine.giveUp id }

def dropPeer (s : State) : State :=
  let (peer, d) := s.peer.drop s.stream.flip
  { s with peer, stream := d.flip }

/-- Sets the last sequence number used. -/
def reseed (s : State) (last : UInt32) : State :=
  { s with engine := { s.engine with sequence := ⟨last⟩ } }

end State
end Parley.Sim.Station
