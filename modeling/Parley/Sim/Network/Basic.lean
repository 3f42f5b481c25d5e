import Parley.Client.Script
import Parley.Server.Connection
import Parley.Sim.Application
import Parley.Sim.Entropy
import Parley.Sim.Peer
import Parley.Sim.System

/-! A network in memory: one server, one client, command-line calls, and plain peers.

Streams are pairs of pipes, numbered in the order in which they were dialed and kept as
their dialer sees them. An address is looked up, letter by letter, among the addresses
that are listened on; a dial that finds one succeeds at once, whether or not anybody has
accepted yet. Dials of a black hole never complete. -/
namespace Parley.Sim
open Channel

/-- Which client a task belongs to. -/
inductive ClientRef where
  | main
  /-- The client of a command-line call. -/
  | script (id : CallId)
  deriving Repr, DecidableEq

/-- A plain peer at one end of a stream. -/
structure Plain where
  name : String
  stream : StreamId
  /-- Whether it dialed the stream. -/
  dialed : Bool
  peer : Peer := {}

/-- A plain listener: what arrives becomes plain peers, numbered from zero. -/
structure PlainListener where
  name : String
  address : String
  arrivals : Nat := 0

/-- How a call of an input ended. -/
inductive Report where
  | outcome (o : Engine.Outcome)
  | bindFailed (e : IoError)
  /-- The connection was consumed or dropped before. -/
  | gone

/-- A command-line call and whether it is over. -/
structure Running where
  script : Client.Script
  ended : Bool := false

structure Network where
  now : Nat := 0
  entropy : Entropy
  /-- How many bytes each direction of a stream holds. -/
  capacity : Nat
  links : List Duplex := []
  listeners : List PlainListener := []
  blackHoles : List String := []
  plains : List Plain := []
  server : Server
  serverApplication : Application := .silent
  serverAttentive : Bool := true
  client : Client
  clientApplication : Application := .silent
  clientAttentive : Bool := true
  scripts : List Running := []
  metrics : Metrics := {}
  /-- What happened since the last report, in order. -/
  delivered : List (Bool × Frame) := []
  reports : List (CallId × Report) := []
  printed : List String := []

namespace Network

/-! ### Streams -/

/-- A new stream, and its number. -/
def link (n : Network) : StreamId × Network :=
  (n.links.length, { n with links := n.links ++ [.ofCapacity n.capacity] })

/-- A stream as its dialer, or else its acceptor, sees it. -/
def view (n : Network) (stream : StreamId) (dialer : Bool) : Duplex :=
  let d := n.links.getD stream (.ofCapacity 0)
  if dialer then d else d.flip

def setView (n : Network) (stream : StreamId) (dialer : Bool) (d : Duplex) : Network :=
  { n with links := n.links.set stream (if dialer then d else d.flip) }

/-- One end gives a stream up. -/
def hangUp (n : Network) (stream : StreamId) (dialer : Bool) : Network :=
  n.setView stream dialer (n.view stream dialer).hangUp

/-! ### Reports -/

def report (n : Network) (id : CallId) (r : Report) : Network :=
  { n with reports := n.reports ++ [(id, r)] }

def returns (n : Network) (id : CallId) (o : Engine.Outcome) : Network :=
  n.report id (.outcome o)

/-- Takes note of what the server did. -/
def noteServer (n : Network) (ev : Event) : Network :=
  let n := { n with metrics := ev.count n.metrics }
  match ev with
  | .engine (.delivered f) => { n with delivered := n.delivered ++ [(true, f)] }
  | .dropped stream => n.hangUp stream false
  | .returned id o => n.returns id o
  | _ => n

def setScript (n : Network) (r : Running) : Network :=
  { n with scripts := n.scripts.map fun r' => if r'.script.id = r.script.id then r else r' }

/-- Takes note of what a client did, other than the outcomes of a script's calls. -/
def noteClientPlain (n : Network) (ref : ClientRef) (ev : Event) : Network :=
  let n := { n with metrics := ev.count n.metrics }
  match ev, ref with
  | .engine (.delivered f), .main => { n with delivered := n.delivered ++ [(false, f)] }
  | .dropped stream, _ => n.hangUp stream true
  | _, _ => n

/-- Moves a script on with the outcome of the call it waits for. -/
def moveScript (n : Network) (r : Running) (o : Engine.Outcome) : Network :=
  let (script, events, out) := r.script.next n.now o
  let n := events.foldl (noteClientPlain · (.script script.id) ·) n
  let n := { n with printed := n.printed ++ out.printed.toList }
  match out.result with
  | none => n.setScript { r with script }
  | some result => (n.setScript { script, ended := true }).returns script.id (.ofResult result)

/-- The outcome that a client reports of a call. -/
def callReturns (n : Network) (ref : ClientRef) (id : CallId) (o : Engine.Outcome) : Network :=
  match ref with
  | .main => n.returns id o
  | .script own =>
    match n.scripts.find? (·.script.id == own) with
    | some r => if r.ended then n else n.moveScript r o
    | none => n

/-- Takes note of what a client did. -/
def noteClient (n : Network) (ref : ClientRef) (ev : Event) : Network :=
  let n := n.noteClientPlain ref ev
  match ev with
  | .returned id o | .engine (.returned id o) => n.callReturns ref id o
  | _ => n

/-! ### Clients -/

def clientAt (n : Network) : ClientRef → Option Client
  | .main => some n.client
  | .script id => (n.scripts.find? (·.script.id == id)).map (·.script.client)

def setClient (n : Network) (ref : ClientRef) (c : Client) : Network :=
  match ref with
  | .main => { n with client := c }
  | .script id => { n with scripts := n.scripts.map fun r =>
      if r.script.id = id then { r with script := { r.script with client := c } } else r }

/-- What a client's engines depend on; a command-line call echoes and is always attentive. -/
def clientEnv (n : Network) : ClientRef → Client.Env
  | .main => ⟨n.now, n.clientAttentive, n.clientApplication.reply⟩
  | .script _ => ⟨n.now, true, Application.echo.reply⟩

def serverEnv (n : Network) : Server.Env :=
  ⟨n.now, n.serverAttentive, n.serverApplication.reply⟩

/-! ### Addresses -/

/-- Whether anybody listens on an address. -/
def isListening (n : Network) (address : String) : Bool :=
  n.server.loops.any (·.address == address) || n.listeners.any (·.address == address)

/-- Hands the far end of a stream to whoever listens on an address. -/
def deliver (n : Network) (address : String) (stream : StreamId) : Network :=
  match n.listeners.find? (·.address == address) with
  | some l =>
    let plain : Plain := { name := s!"{l.name}{l.arrivals}", stream, dialed := false }
    { n with
      plains := n.plains ++ [plain]
      listeners := n.listeners.map fun l' =>
        if l'.address = address then { l' with arrivals := l'.arrivals + 1 } else l' }
  | none => { n with server := n.server.offer address stream }

/-- Dials an address: a stream to whoever listens there. -/
def dial (n : Network) (address : String) : Option (StreamId × Network) :=
  if n.isListening address then
    let (stream, n) := n.link
    some (stream, n.deliver address stream)
  else none

def connectionRefused : IoError := { kind := .connectionRefused, text := "connection refused" }

end Network
end Parley.Sim
