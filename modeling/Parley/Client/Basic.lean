import Parley.Admission
import Parley.Channel.Handshake
import Parley.Config.Schema
import Parley.Deadline
import Parley.Engine.Step
import Parley.Event
import Parley.Signal
import Parley.Tracker

/-! The client: connect calls and the connections they make.

A connect call is tracked, reserves a slot, dials, and makes its handshake, the last two
under one deadline; then it starts a connection that drives an engine in the background,
and returns. Each connection has a cancellation of its own, so that it can be closed
alone; shutting the client down fires all of them.

A connection's holder may wait for its end, or close it; a holder that lets go of it
closes it. -/
namespace Parley
open Channel

namespace Client

/-- Where a connect call is. -/
inductive Stage where
  | starting
  | tracked
  /-- Has looked at the signal and is about to ask for a slot. -/
  | cleared
  /-- Waits in line for a slot. -/
  | queued
  /-- Waits for a stream. -/
  | dialing (due : Option Nat)
  | shaking (stream : StreamId) (h : Handshake)

structure Dial where
  id : CallId
  address : String
  stage : Stage := .starting

/-- A connection, by the call that made it. -/
structure Connection where
  id : CallId
  stream : StreamId
  engine : Engine
  /-- The cancellation of this connection alone. -/
  own : Shutdown := {}
  /-- Whether its holder still has it. -/
  held : Bool := true
  /-- The call that waits for its end, and whether the holder's giving it up closes it. -/
  awaiting : Option CallId := none
  /-- How it ended, once its task is over. -/
  result : Option (Except Error Unit) := none

end Client

structure Client where
  config : Config.Client
  connection : Config.Connection
  admission : Admission
  shutdown : Shutdown := {}
  tracker : Tracker := {}
  dials : List Client.Dial := []
  connections : List Client.Connection := []
  /-- Calls that wait until nothing is tracked. -/
  idling : List CallId := []

namespace Client

def create (config : Config.Client) (connection : Config.Connection) : Client :=
  { config, connection, admission := .create config.slots config.maxWait }

/-- Connect calls and connections that have not ended. -/
def active (c : Client) : Nat := c.tracker.active

def setDial (c : Client) (d : Dial) : Client :=
  { c with dials := c.dials.map fun d' => if d'.id = d.id then d else d' }

def setConnection (c : Client) (k : Connection) : Client :=
  { c with connections := c.connections.map fun k' => if k'.id = k.id then k else k' }

/-! ### Connecting -/

/-- Starts a connect call. -/
def connect (c : Client) (id : CallId) (address : String) : Client :=
  let d : Dial := { id, address }
  { c with dials := c.dials ++ [d] }

/-- The call is over and tracked no more. -/
def endDial (c : Client) (d : Dial) : Client :=
  { c with dials := c.dials.filter (·.id != d.id), tracker := c.tracker.release }

/-- The call has failed. -/
def dialFails (c : Client) (d : Dial) (e : Error) : Client × List Event :=
  (c.endDial d, [.returned d.id (.failed e)])

/-- The call had a slot and has failed at dialing or in the handshake. -/
def connectFails (c : Client) (d : Dial) (e : Error) : Client × List Event :=
  let (c, events) := { c with admission := c.admission.release }.dialFails d e
  (c, .handshakeFailed :: events)

/-- The call has a slot and starts to dial. -/
def startDialing (c : Client) (now : Nat) (d : Dial) : Client :=
  c.setDial { d with stage := .dialing (dueAfter c.config.handshakeTimeout now) }

/-- One step of a connect call that has no stream yet. -/
def stepDial (c : Client) (now : Nat) (id : CallId) : Option (Client × List Event) :=
  match c.dials.find? (·.id == id) with
  | none => none
  | some d =>
    match d.stage with
    | .starting =>
      let (_, tracker) := c.tracker.track
      some ({ c with tracker }.setDial { d with stage := .tracked }, [])
    | .tracked =>
      if c.shutdown.fired then some (c.dialFails d .shutdown)
      else some (c.setDial { d with stage := .cleared }, [])
    | .cleared =>
      match c.admission.acquire id now with
      | (true, admission) => some ({ c with admission }.startDialing now d, [])
      | (false, admission) => some ({ c with admission }.setDial { d with stage := .queued }, [])
    | .queued =>
      match c.admission.stepWait id now (Signal.subscribed.isCancelled c.shutdown) with
      | none => none
      | some (.ok _, admission) => some ({ c with admission }.startDialing now d, [])
      | some (.error e, admission) => some ({ c with admission }.dialFails d e)
    | .dialing due => (expired due .handshake now).map (c.connectFails d)
    | .shaking .. => none

/-- The address that a call is dialing. -/
def dialing (c : Client) (id : CallId) : Option String :=
  match c.dials.find? (·.id == id) with
  | some { address, stage := .dialing _, .. } => some address
  | _ => none

/-- Dialing has failed. -/
def refused (c : Client) (id : CallId) (e : IoError) : Client × List Event :=
  match c.dials.find? (·.id == id) with
  | none => (c, [])
  | some d => c.connectFails d (.io e)

/-- Dialing has yielded a stream, and the handshake starts. -/
def dialed (c : Client) (id : CallId) (stream : StreamId) (secret : Bytes) : Client :=
  match c.dials.find? (·.id == id) with
  | some d =>
    match d.stage with
    | .dialing due => c.setDial { d with stage := .shaking stream (.start secret due) }
    | _ => c
  | none => c

/-- The engine of a connection that has a key. -/
def engage (c : Client) (now : Nat) (key : SessionKey) : Engine :=
  let settings := c.connection.settings
  let e : Engine := { settings }
  let sealer := Sealer.create key .client settings.maxWrite
  let opener := Opener.create key .client settings.maxRead
  match e.start now sealer opener with
  | .ok e => e
  | .error _ => e

/-- One step of a connect call's handshake. With the key it starts the connection. -/
def stepHandshake (c : Client) (now : Nat) (id : CallId) (stream : Duplex) :
    Option (Client × Duplex × List Event) :=
  match c.dials.find? (·.id == id) with
  | none => none
  | some d =>
    match d.stage with
    | .shaking sid h =>
      match h.step .client now stream with
      | none => none
      | some (.going h stream) =>
        some (c.setDial { d with stage := .shaking sid h }, stream, [])
      | some (.agreed key) =>
        let k : Connection := { id, stream := sid, engine := c.engage now key }
        some ({ c with
            dials := c.dials.filter (·.id != id)
            connections := c.connections ++ [k] }, stream, [.opened, .returned id .done])
      | some (.failed e) =>
        let (c, events) := c.connectFails d e
        some (c, stream.hangUp, events)
    | _ => none

/-- A connect call is dropped. -/
def dropDial (c : Client) (id : CallId) : Client × List Event :=
  match c.dials.find? (·.id == id) with
  | none => (c, [])
  | some d =>
    match d.stage with
    | .starting => ({ c with dials := c.dials.filter (·.id != id) }, [])
    | .tracked | .cleared => (c.endDial d, [])
    | .queued => ({ c with admission := c.admission.leave id }.endDial d, [])
    | .dialing _ => ({ c with admission := c.admission.release }.endDial d, [])
    | .shaking stream _ =>
      ({ c with admission := c.admission.release }.endDial d, [.dropped stream])

/-! ### Connections -/

/-- What the connections depend on besides the client. -/
structure Env where
  now : Nat
  attentive : Bool
  reply : Bytes → Option Bytes

def Env.engine (env : Env) (k : Connection) : Engine.Env where
  now := env.now
  cancelled := Signal.subscribed.isCancelled k.own
  attentive := env.attentive
  reply := env.reply

/-- The engine of a connection. It can be called for as long as anyone knows it, also after
the connection has ended. -/
def engine? (c : Client) (id : CallId) : Option Engine :=
  (c.connections.find? (·.id == id)).map (·.engine)

def setEngine (c : Client) (id : CallId) (engine : Engine) : Client :=
  { c with connections := c.connections.map fun k => if k.id = id then { k with engine } else k }

/-- A call into an engine is dropped. -/
def dropCall (c : Client) (call : CallId) : Client :=
  { c with connections := c.connections.map fun k =>
      { k with engine := k.engine.giveUp call } }

/-- How the events say that the engine's drive ended, if they do. -/
def ending (events : List Engine.Event) : Option (Except Error Unit) :=
  events.findSome? fun
    | .ended r => some r
    | _ => none

/-- One step of a connection's engine. When the drive ends the connection's slot is given
back and it is tracked no more. -/
def stepEngine (c : Client) (env : Env) (id : CallId) (t : Engine.Task) (d : Duplex) :
    Option (Client × Duplex × List Event) :=
  match c.connections.find? (·.id == id) with
  | none => none
  | some k =>
    match k.engine.step (env.engine k) t d with
    | none => none
    | some (engine, d, events) =>
      let k := { k with engine }
      match ending events with
      | none => some (c.setConnection k, d, events.map .engine)
      | some r =>
        let c := c.setConnection { k with result := some r }
        let c := { c with tracker := c.tracker.release, admission := c.admission.release }
        some (c, d, events.map .engine ++ [.closed])

/-- Passes the client's shutdown on to a connection. -/
def stepRelay (c : Client) (id : CallId) : Option (Client × List Event) :=
  match c.connections.find? (·.id == id) with
  | none => none
  | some k =>
    if k.result.isNone && Signal.subscribed.isCancelled c.shutdown && !k.own.fired then
      some (c.setConnection { k with own := k.own.trigger.2 }, [])
    else none

/-- The call that waits for a connection's end returns. -/
def stepEnd (c : Client) (id : CallId) : Option (Client × List Event) :=
  match c.connections.find? (·.id == id) with
  | none => none
  | some k =>
    match k.awaiting, k.result with
    | some call, some r =>
      some (c.setConnection { k with awaiting := none }, [.returned call (.ofResult r)])
    | _, _ => none

/-! ### Holding a connection -/

/-- Waits for a connection's end; false if its holder no longer has it. -/
def join (c : Client) (id call : CallId) : Bool × Client :=
  match c.connections.find? (·.id == id) with
  | some k =>
    if k.held then (true, c.setConnection { k with held := false, awaiting := some call })
    else (false, c)
  | none => (false, c)

/-- Tells a connection to end. -/
def cancel (c : Client) (id : CallId) : Client :=
  match c.connections.find? (·.id == id) with
  | some k => c.setConnection { k with own := k.own.trigger.2 }
  | none => c

/-- Closes a connection and waits for its end; false if its holder no longer has it. -/
def close (c : Client) (id call : CallId) : Bool × Client :=
  match c.join id call with
  | (true, c) => (true, c.cancel id)
  | (false, c) => (false, c)

/-- The holder lets go of a connection, which closes it. -/
def letGo (c : Client) (id : CallId) : Client :=
  match c.connections.find? (·.id == id) with
  | some k =>
    if k.held then c.setConnection { k with held := false, own := k.own.trigger.2 } else c
  | none => c

/-- A call that waits for a connection's end is dropped, and with it the connection. -/
def dropEnd (c : Client) (call : CallId) : Client :=
  { c with connections := c.connections.map fun k =>
      if k.awaiting = some call then { k with awaiting := none, own := k.own.trigger.2 } else k }

/-! ### Shutting down -/

/-- Fires the signal; the call waits until nothing is tracked. -/
def beginShutdown (c : Client) (id : CallId) : Client :=
  { c with shutdown := c.shutdown.trigger.2, idling := c.idling ++ [id] }

def stepIdle (c : Client) (id : CallId) : Option (Client × List Event) :=
  if c.idling.contains id && c.tracker.isIdle then
    some ({ c with idling := c.idling.filter (· != id) }, [.returned id .done])
  else none

/-- A call that waits until nothing is tracked is dropped. -/
def dropIdle (c : Client) (id : CallId) : Client :=
  { c with idling := c.idling.filter (· != id) }

/-- The client itself is dropped: nobody is left to fire its signal. -/
def drop (c : Client) : Client := { c with shutdown := c.shutdown.drop }

/-! ### Deadlines -/

def Stage.dues : Stage → List Nat
  | .dialing due => due.toList
  | .shaking _ h => h.due.toList
  | _ => []

def dues (c : Client) : List Nat :=
  c.admission.dues ++ c.dials.flatMap (·.stage.dues) ++ c.connections.flatMap (·.engine.dues)

end Client
end Parley
