import Parley.Client.Basic
import Parley.Utf8

/-! The command line's call: connect, send one message, print the response, close, and shut
the client down. With `notify` the message expects no response and nothing is printed.

Each stage waits for one call; its outcome moves the script on or ends it. A script that
ends early lets go of its connection and its client. -/
namespace Parley.Client

inductive Script.Stage where
  | connecting
  | sending
  | closing
  | leaving
  deriving Repr, DecidableEq

structure Script where
  /-- The script's own call, and every call it makes in turn. -/
  id : CallId
  notify : Bool
  message : String
  requestTimeout : Nat
  stage : Script.Stage := .connecting
  client : Client

namespace Script

/-- Starts a call under a configuration. -/
def start (id : CallId) (config : Config) (notify : Bool) (message : String) : Script where
  id
  notify
  message
  requestTimeout := config.connection.requestTimeout
  client := (Client.create config.client config.connection).connect id config.client.address

/-- What a script prints, and its result once it is over. -/
structure Output where
  printed : Option String := none
  result : Option (Except Error Unit) := none

/-- Lets go of everything the script has. -/
def abandon (s : Script) : Script × List Event :=
  let (client, events) := s.client.dropDial s.id
  let client := (client.dropCall s.id).dropEnd s.id
  ({ s with client := ((client.letGo s.id).dropIdle s.id).drop }, events)

/-- The script ends with an error. -/
def fails (s : Script) (e : Error) : Script × List Event × Output :=
  let (s, events) := s.abandon
  (s, events, { result := some (.error e) })

/-- Sends the message. -/
def send (s : Script) (now : Nat) : Except Error Script :=
  match s.client.engine? s.id with
  | none => .error .closed
  | some e =>
    let payload := Utf8.encode s.message
    let sent := if s.notify then e.write s.id payload
      else e.request s.id payload s.client.connection.maxRead (now + s.requestTimeout)
    sent.map fun e => { s with stage := .sending, client := s.client.setEngine s.id e }

/-- Goes on from the outcome of the call that the script waits for. -/
def next (s : Script) (now : Nat) (o : Engine.Outcome) : Script × List Event × Output :=
  match o with
  | .failed e => s.fails e
  | .response payload =>
    let client := (s.client.close s.id s.id).2
    ({ s with stage := .closing, client }, [], { printed := some (Utf8.decodeLossy payload) })
  | .done =>
    match s.stage with
    | .connecting =>
      match s.send now with
      | .error e => s.fails e
      | .ok s => (s, [], {})
    | .sending => ({ s with stage := .closing, client := (s.client.close s.id s.id).2 }, [], {})
    | .closing =>
      ({ s with stage := .leaving, client := s.client.beginShutdown s.id }, [], {})
    | .leaving => ({ s with client := s.client.drop }, [], { result := some (.ok ()) })

end Script
end Parley.Client
