import Parley.Deadline
import Parley.Server.Basic

/-! The life of a server's connection: handshake, engine, end. -/
namespace Parley.Server
open Channel

/-- The connection is over: its slot is given back and it is tracked no more. -/
def endConnection (s : Server) (c : Connection) : Server :=
  { s with
    connections := s.connections.filter (·.guard != c.guard)
    tracker := s.tracker.release
    admission := s.admission.release }

/-- The engine of a connection that has a key. -/
def engage (s : Server) (now : Nat) (key : SessionKey) : Engine :=
  let settings := s.connection.settings
  let e : Engine := { settings }
  let sealer := Sealer.create key .server settings.maxWrite
  let opener := Opener.create key .server settings.maxRead
  match e.start now sealer opener with
  | .ok e => e
  | .error _ => e

/-- What the connections depend on besides the server. -/
structure Env where
  now : Nat
  attentive : Bool
  reply : Bytes → Option Bytes

def Env.engine (env : Env) (s : Server) : Engine.Env where
  now := env.now
  cancelled := s.shutdown.fired
  attentive := env.attentive
  reply := env.reply

/-- Whether a connection is about to start its handshake, for which it needs a secret. -/
def wantsSecret (s : Server) (guard : Nat) : Bool :=
  !s.shutdown.fired && s.connections.any fun c =>
    c.guard == guard && match c.progress with
      | .arriving => true
      | _ => false

/-- Starts the handshake of a connection that has arrived. -/
def beginHandshake (s : Server) (now guard : Nat) (secret : Bytes) : Server :=
  { s with connections := s.connections.map fun c =>
      if c.guard = guard then
        let due := dueAfter s.config.handshakeTimeout now
        { c with progress := .shaking (.start secret due) }
      else c }

/-- One step of a connection before it has an engine. Shutting down ends it at once and
quietly. -/
def stepHandshake (s : Server) (env : Env) (guard : Nat) (d : Duplex) :
    Option (Server × Duplex × List Event) :=
  match s.connections.find? (·.guard == guard) with
  | none => none
  | some c =>
    match c.progress with
    | .engaged _ => none
    | .arriving =>
      if s.shutdown.fired then some (s.endConnection c, d.hangUp, [.closed]) else none
    | .shaking h =>
      if s.shutdown.fired then some (s.endConnection c, d.hangUp, [.closed])
      else
        match h.step .server env.now d with
        | none => none
        | some (.going h d) => some (s.setConnection { c with progress := .shaking h }, d, [])
        | some (.agreed key) =>
          some (s.setConnection { c with progress := .engaged (s.engage env.now key) }, d, [])
        | some (.failed _) => some (s.endConnection c, d.hangUp, [.handshakeFailed, .closed])

/-- Whether the events say that the engine's stream is no longer driven. -/
def ends (events : List Engine.Event) : Bool :=
  events.any fun
    | .ended _ => true
    | _ => false

/-- One step of a connection's engine. The connection is over when the engine is. -/
def stepEngine (s : Server) (env : Env) (guard : Nat) (t : Engine.Task) (d : Duplex) :
    Option (Server × Duplex × List Event) :=
  match s.connections.find? (·.guard == guard) with
  | none => none
  | some c =>
    match c.progress with
    | .engaged e =>
      match e.step (env.engine s) t d with
      | none => none
      | some (e, d, events) =>
        if ends events then some (s.endConnection c, d, events.map .engine ++ [.closed])
        else some (s.setConnection { c with progress := .engaged e }, d, events.map .engine)
    | _ => none

/-! ### Deadlines -/

def Progress.dues : Progress → List Nat
  | .arriving => []
  | .shaking h => h.due.toList
  | .engaged e => e.dues

def Stage.dues : Stage → List Nat
  | .pausing due => [due]
  | _ => []

def dues (s : Server) : List Nat :=
  s.admission.dues ++ s.loops.flatMap (·.stage.dues) ++ s.connections.flatMap (·.progress.dues)

end Parley.Server
