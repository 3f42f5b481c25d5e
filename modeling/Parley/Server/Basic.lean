import Parley.Admission
import Parley.Channel.Handshake
import Parley.Config.Schema
import Parley.Engine.Step
import Parley.Event
import Parley.Server.AcceptError
import Parley.Signal
import Parley.Tracker

/-! The server: its accept loops and its connections.

A loop owns its listener. It takes a stream, tracks it, reserves a slot for it and starts
a connection; a stream that gets no slot in time is closed unhandled. A connection makes
its handshake under a deadline and then drives an engine of its own; however it ends, its
slot is given back and it is tracked no more.

Shutting down fires one signal that loops, reservations, handshakes and engines listen
to, and waits until nothing is tracked. -/
namespace Parley
open Channel

namespace Server

/-- Where an accept loop is. -/
inductive Stage where
  | accepting
  /-- Waiting out an accept error. -/
  | pausing (due : Nat)
  /-- Has a stream that nothing knows of yet. -/
  | taken (stream : StreamId)
  | tracked (stream : StreamId) (guard : Nat)
  /-- Has looked at the signal and is about to ask for a slot. -/
  | cleared (stream : StreamId) (guard : Nat)
  /-- Waits in line for a slot. -/
  | queued (stream : StreamId) (guard : Nat)
  deriving Repr, DecidableEq

structure Loop where
  id : CallId
  address : String
  /-- Streams that arrived and were not taken yet, oldest first. -/
  backlog : List StreamId := []
  /-- Errors that the next accepts fail with. -/
  faults : List IoError := []
  stage : Stage := .accepting
  deriving Repr, DecidableEq

/-- How far a connection is. -/
inductive Progress where
  | arriving
  | shaking (h : Handshake)
  | engaged (e : Engine)

structure Connection where
  /-- The number of its guard. -/
  guard : Nat
  stream : StreamId
  progress : Progress := .arriving

end Server

structure Server where
  config : Config.Server
  connection : Config.Connection
  admission : Admission
  shutdown : Shutdown := {}
  tracker : Tracker := {}
  loops : List Server.Loop := []
  connections : List Server.Connection := []
  /-- Calls that wait until nothing is tracked. -/
  idling : List CallId := []

namespace Server

def create (config : Config.Server) (connection : Config.Connection) : Server :=
  { config, connection, admission := .create config.slots config.maxWait }

/-- Connections that have not ended, and streams that wait for a slot. -/
def active (s : Server) : Nat := s.tracker.active

def freeSlots (s : Server) : Nat := s.admission.free

def setLoop (s : Server) (l : Loop) : Server :=
  { s with loops := s.loops.map fun l' => if l'.id = l.id then l else l' }

def setConnection (s : Server) (c : Connection) : Server :=
  { s with connections := s.connections.map fun c' => if c'.guard = c.guard then c else c' }

/-! ### Accepting -/

/-- Starts an accept loop on an address. -/
def serve (s : Server) (id : CallId) (address : String) : Server :=
  let l : Loop := { id, address }
  { s with loops := s.loops ++ [l] }

/-- Puts a stream in the backlog of the loop on an address. -/
def offer (s : Server) (address : String) (stream : StreamId) : Server :=
  { s with loops := s.loops.map fun l =>
      if l.address = address then { l with backlog := l.backlog ++ [stream] } else l }

/-- Makes an accept of the loop on an address fail. -/
def fault (s : Server) (address : String) (e : IoError) : Server :=
  { s with loops := s.loops.map fun l =>
      if l.address = address then { l with faults := l.faults ++ [e] } else l }

/-- The loop is gone, and with it its listener and the streams not taken. -/
def endLoop (s : Server) (l : Loop) : Server × List Event :=
  ({ s with loops := s.loops.filter (·.id != l.id) }, l.backlog.map .dropped)

/-- The loop returns. -/
def loopReturns (s : Server) (l : Loop) (r : Except Error Unit) : Server × List Event :=
  let (s, events) := s.endLoop l
  (s, events ++ [.returned l.id (.ofResult r)])

/-- Takes the next fault or stream. -/
def accept (s : Server) (now : Nat) (l : Loop) : Option (Server × List Event) :=
  match l.faults, l.backlog with
  | e :: faults, _ =>
    let l := { l with faults }
    match classifyAccept e with
    | .closed => some (s.loopReturns l (.ok ()))
    | .transient => some (s.setLoop { l with stage := .pausing (now + s.config.acceptBackoff) }, [])
    | .fatal => some (s.loopReturns l (.error (.io e)))
  | [], stream :: backlog => some (s.setLoop { l with backlog, stage := .taken stream }, [])
  | [], [] => none

/-- Starts a connection on a stream that has a slot; the loop goes on. -/
def takeIn (s : Server) (l : Loop) (stream : StreamId) (guard : Nat) : Server × List Event :=
  let c : Connection := { guard, stream }
  let s := { s with connections := s.connections ++ [c] }
  (s.setLoop { l with stage := .accepting }, [.accepted, .opened])

/-- Gives up a stream that was tracked. -/
def forget (s : Server) (stream : StreamId) : Server × List Event :=
  ({ s with tracker := s.tracker.release }, [.dropped stream])

/-- One step of an accept loop. Shutting down goes before anything else it waits for. -/
def stepLoop (s : Server) (now : Nat) (id : CallId) : Option (Server × List Event) :=
  match s.loops.find? (·.id == id) with
  | none => none
  | some l =>
    match l.stage with
    | .accepting =>
      if s.shutdown.fired then some (s.loopReturns l (.ok ())) else s.accept now l
    | .pausing due =>
      if s.shutdown.fired then some (s.loopReturns l (.ok ()))
      else if due ≤ now then some (s.setLoop { l with stage := .accepting }, [])
      else none
    | .taken stream =>
      let (guard, tracker) := s.tracker.track
      some ({ s with tracker }.setLoop { l with stage := .tracked stream guard }, [])
    | .tracked stream guard =>
      if s.shutdown.fired then
        let (s, dropped) := s.forget stream
        let (s, events) := s.loopReturns l (.ok ())
        some (s, dropped ++ events)
      else some (s.setLoop { l with stage := .cleared stream guard }, [])
    | .cleared stream guard =>
      match s.admission.acquire id now with
      | (true, admission) => some ({ s with admission }.takeIn l stream guard)
      | (false, admission) =>
        some ({ s with admission }.setLoop { l with stage := .queued stream guard }, [])
    | .queued stream guard =>
      match s.admission.stepWait id now s.shutdown.fired with
      | none => none
      | some (.ok _, admission) => some ({ s with admission }.takeIn l stream guard)
      | some (.error .shutdown, admission) =>
        let (s, dropped) := { s with admission }.forget stream
        let (s, events) := s.loopReturns l (.ok ())
        some (s, dropped ++ events)
      | some (.error _, admission) =>
        let (s, dropped) := { s with admission }.forget stream
        some (s.setLoop { l with stage := .accepting }, dropped ++ [.rejected])

/-- The call that runs a loop is dropped. -/
def dropLoop (s : Server) (id : CallId) : Server × List Event :=
  match s.loops.find? (·.id == id) with
  | none => (s, [])
  | some l =>
    let (s, dropped) : Server × List Event := match l.stage with
      | .taken stream => (s, [.dropped stream])
      | .tracked stream _ | .cleared stream _ => s.forget stream
      | .queued stream _ => { s with admission := s.admission.leave id }.forget stream
      | _ => (s, [])
    let (s, events) := s.endLoop l
    (s, dropped ++ events)

/-! ### Shutting down -/

/-- Fires the signal; the call waits until nothing is tracked. -/
def beginShutdown (s : Server) (id : CallId) : Server :=
  { s with shutdown := s.shutdown.trigger.2, idling := s.idling ++ [id] }

def stepIdle (s : Server) (id : CallId) : Option (Server × List Event) :=
  if s.idling.contains id && s.tracker.isIdle then
    some ({ s with idling := s.idling.filter (· != id) }, [.returned id .done])
  else none

/-- A call that waits until nothing is tracked is dropped. -/
def dropIdle (s : Server) (id : CallId) : Server :=
  { s with idling := s.idling.filter (· != id) }

end Server
end Parley
