import Parley.Channel.Exchange
import Parley.Channel.Opener
import Parley.Channel.Sealer
import Parley.Sim.Peer
import Parley.Sim.System

/-! One end of a secured stream against a plain far end.

A call runs in turns with the far end's sending and reading until it completes or
nothing moves any more; a call that cannot complete is given up. -/
namespace Parley.Sim.Endpoint
open Parley.Channel

/-- The largest plaintexts taken in each direction. -/
structure Limits where
  maxRead : Nat
  maxWrite : Nat
  deriving Repr, DecidableEq

/-- What a call is doing, or what it came to. -/
inductive Call where
  | idle
  | shaking (x : Exchange)
  | sealing (job : Sealer.Job)
  | reading (collected : Bytes)
  | done (r : Except Error Unit)
  | read (f : Option Frame)

structure State where
  role : Role
  limits : Limits
  stream : Duplex
  /-- The secured stream, once there is a key. -/
  secured : Option (Sealer × Opener) := none
  peer : Peer := {}
  call : Call := .idle

namespace State

/-- A stream secured with a key, its nonce counters starting as given. -/
def secure (s : State) (key : SessionKey) (readCounter writeCounter : Nat := 0) : State :=
  let w := Sealer.create key s.role s.limits.maxWrite writeCounter
  let r := Opener.create key s.role s.limits.maxRead readCounter
  { s with secured := some (w, r) }

/-- One step of the call in progress. -/
def stepCall (s : State) : Option State :=
  match s.call, s.secured with
  | .shaking (.agreed key), _ => some { (s.secure key) with call := .done (.ok ()) }
  | .shaking x, _ =>
    (x.advance s.role s.stream).map fun
      | .error e => { s with call := .done (.error e) }
      | .ok (x, stream) => { s with call := .shaking x, stream }
  | .sealing job, some (w, r) =>
    (w.advance job s.stream.outgoing).map fun
      | .error e => { s with call := .done (.error (.io e)), secured := some (w.failed, r) }
      | .ok (job, w, outgoing) =>
        { s with
          call := (job.map Call.sealing).getD (.done (.ok ()))
          secured := some (w, r)
          stream := { s.stream with outgoing } }
  | .reading collected, some (w, r) =>
    (r.advance collected s.stream.incoming).map fun (reading, r, incoming) =>
      { s with
        call := match reading with
          | .partly collected => .reading collected
          | .ended => .read none
          | .frame f => .read (some f)
          | .failed e => .done (.error e)
        secured := some (w, r)
        stream := { s.stream with incoming } }
  | _, _ => none

/-- Lets the far end take a step. -/
def stepPeer (f : Peer → Duplex → Option (Peer × Duplex)) (s : State) : Option State :=
  (f s.peer s.stream.flip).map fun (peer, d) => { s with peer, stream := d.flip }

end State

inductive Task where
  | call
  | send
  | hear
  deriving Repr, DecidableEq

def system : System State Task where
  tasks _ := [.call, .send, .hear]
  step
    | .call => State.stepCall
    | .send => State.stepPeer Peer.stepSend
    | .hear => State.stepPeer Peer.stepRead

/-! ### Calls -/

inductive Request where
  | write (f : Frame)
  | flush
  | close
  | read
  deriving Repr, DecidableEq

namespace State

def settle (s : State) : State := system.settle patience s

/-- The state in which a call has just been made. -/
def enter (s : State) : Request → State
  | .write f =>
    match s.secured with
    | none => s
    | some (w, r) =>
      match w.write f with
      | .error e => { s with call := .done (.error e) }
      | .ok (job, w) => { s with call := .sealing job, secured := some (w, r) }
  | .flush => { s with call := .sealing .flushing }
  | .close => { s with call := .sealing .closing }
  | .read => { s with call := .reading [] }

def run (s : State) (r : Request) : State := (s.enter r).settle

/-- Runs the handshake with a secret and says what it came to; without success the
stream is given up. -/
def handshake (s : State) (secret : Bytes) : Call × State :=
  let s := settle { s with call := .shaking (.start secret) }
  match s.call with
  | .done (.ok ()) => (s.call, s)
  | call => (call, settle { s with call := .idle, stream := s.stream.hangUp })

/-- Gives up the far end. -/
def dropPeer (s : State) : State :=
  let (peer, d) := s.peer.drop s.stream.flip
  { s with peer, stream := d.flip }

/-- The far end sends before it hears anything; then it may shut its direction down, and
may give its end up. -/
def greet (s : State) (sent : Bytes) (ends drops : Bool) : State :=
  let s := settle { s with peer := { s.peer.send sent with appetite := some 0 } }
  let s := { s with peer := { s.peer with appetite := none, finishing := ends } }
  if drops then s.dropPeer else s

end State
end Parley.Sim.Endpoint
